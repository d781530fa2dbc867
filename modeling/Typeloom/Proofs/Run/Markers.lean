import Typeloom.Proofs.Run.Protocol
import Typeloom.Proofs.Run.WholeFiles

/-!
# Markers

A run that is asked for a marker and succeeds leaves one in the target directory.  It leaves the
other marker alone, so that in a directory with several runs there are the markers of all runs that
succeeded.
-/

namespace Typeloom

open Reporting Transcript

/-- Whether a directory holds a marker. -/
def Marked (base : List String) (hadWarning : Bool) (system : FileSystem) : Prop :=
  system.HasFile (base ++ [Publishing.markerName hadWarning])

namespace Publishing

variable {options : Options} {code : GeneratedCode} {outline : Outline} {base : List String}
  {site after : Site}

theorem markerName_injective : Function.Injective markerName := by
  intro left right same
  cases left <;> cases right <;> first | rfl | exact absurd same (by decide)

theorem verdict_eq_success_iff {result : Except Fault Unit} :
    (verdict result).1 = .ok .success ↔ result = .ok () := by
  unfold verdict
  split <;> simp

/-- Generated files are no markers, and nothing that is announced is a warning. -/
theorem marked_writeDirectory (areFiles : code.files = options.language.files outline)
    {result : Except Fault Unit}
    (writes : (writeDirectory options code).run site = (result, after)) :
    site.system.Persists after.system ∧ after.channel.hadWarning = site.channel.hadWarning ∧
      ∀ base hadWarning, Marked base hadWarning after.system ↔
        Marked base hadWarning site.system := by
  obtain ⟨_, _, ran, persists, leaves⟩ := run_writeDirectory options code site
  obtain ⟨rfl, rfl⟩ := Prod.mk.inj (ran.symm.trans writes)
  refine ⟨persists, ?_, fun base hadWarning => persists.hasFile_iff ?_⟩
  · obtain ⟨_, later, written, told, _, isTold, -, agrees⟩ :=
      agree_writeDirectory (.refl options) code site.system site.output site.channel.hadWarning
    obtain ⟨-, rfl⟩ := Prod.mk.inj (writes.symm.trans (agrees site.channel rfl).1)
    exact hadWarning_apply isTold site.channel
  · refine (leaves _).resolve_right fun ⟨texts, _, planned, isPlanned, holds⟩ => ?_
    obtain ⟨file, occurs, rfl⟩ := List.mem_map.mp isPlanned
    obtain ⟨path, hasPath, leads⟩ := holds.exists_path
    exact getLast?_ne_markerName (areFiles ▸ occurs) hasPath leads hadWarning List.getLast?_concat

/-- The marker that tells of the channel is there in the end if it can be written, and the other
one is there if it was before. -/
theorem marked_writeMarker (isDebug : options.debug = true)
    (isBase : site.system.locate options.target = .ok base) {result : Except Fault Unit}
    (writes : (writeMarker options).run site = (result, after)) (hadWarning : Bool) :
    Marked base hadWarning after.system ↔ Marked base hadWarning site.system ∨
      result = .ok () ∧ site.channel.hadWarning = hadWarning := by
  unfold writeMarker at writes
  rw [if_pos isDebug, run_get_bind, run_filing] at writes
  obtain ⟨readOnly, puts⟩ := Filing.putsFile_writeFile
    (options.target.join (Path.parse (markerName site.channel.hadWarning))) (.bytes []) site.system
  rcases written : (Filing.writeFile (options.target.join
    (Path.parse (markerName site.channel.hadWarning))) (.bytes [])).run site.system
    with ⟨fault | ⟨⟩, later⟩
  all_goals
    rw [written] at puts writes
    obtain ⟨rfl, rfl⟩ := Prod.mk.inj writes
  · cases puts with
    | refused files_eq persists =>
        simp only [reduceCtorEq, false_and, or_false]
        exact persists.hasFile_iff (by rw [files_eq])
  · obtain ⟨place, leads, isThere⟩ := Filing.hasFile_writeFile written
    obtain rfl := place_of_marker (puts.persists.locate isBase) leads
    by_cases same : site.channel.hadWarning = hadWarning
    · subst same
      exact iff_of_true isThere (Or.inr ⟨rfl, rfl⟩)
    · have otherPlace : base ++ [markerName hadWarning] ≠
          base ++ [markerName site.channel.hadWarning] := fun samePlace =>
        same (markerName_injective (by simpa using samePlace)).symm
      have unchanged := (puts.unchanged_or_put (base ++ [markerName hadWarning])).resolve_right
        fun isPut => otherPlace (Except.ok.inj (isPut.1.symm.trans leads))
      simp only [same, and_false, or_false]
      exact puts.persists.hasFile_iff unchanged

/-- A publication of code adds the marker that tells of the channel, if it succeeds. -/
theorem marked_publish (isCode : options.mode = .code) (isDebug : options.debug = true)
    (areFiles : code.files = options.language.files outline)
    (isBase : site.system.locate options.target = .ok base) (hadWarning : Bool) :
    Marked base hadWarning ((publish options (.code code)).run site).2.system ↔
      Marked base hadWarning site.system ∨
        ((publish options (.code code)).run site).1 = .ok .success ∧
          site.channel.hadWarning = hadWarning := by
  have writesDirectory : writeCode options code = writeDirectory options code := by
    unfold writeCode
    rw [isCode]
  unfold publish
  dsimp only
  rw [run_reportingErrors, run_bind, writesDirectory]
  rcases writes : (writeDirectory options code).run site with ⟨fault | ⟨⟩, between⟩
  · obtain ⟨-, -, sameMarkers⟩ := marked_writeDirectory areFiles writes
    dsimp only
    rw [verdict_eq_success_iff, sameMarkers base hadWarning]
    simp
  · obtain ⟨persists, sameWarning, sameMarkers⟩ := marked_writeDirectory areFiles writes
    rcases marks : (writeMarker options).run between with ⟨result, after⟩
    dsimp only
    rw [marks, verdict_eq_success_iff,
      marked_writeMarker isDebug (persists.locate isBase) marks hadWarning, sameMarkers,
      sameWarning]

end Publishing

namespace Program

variable {arguments : List String} {remote : Table String (List UInt8)} {site : Site}
  {base : List String} {system : FileSystem} {warned : List Bool}

/-- Whether a command line asks for code in a directory, and for a marker there. -/
def AsksForMarker (base : List String) (arguments : List String) (system : FileSystem) : Prop :=
  ∃ options, Options.parse .program system arguments = .ok (.options options) ∧
    options.mode = .code ∧ options.debug = true ∧ system.locate options.target = .ok base

/-- A run adds the marker that tells whether there was a warning, if it succeeds.  It takes no
marker away. -/
theorem marked_run (asks : AsksForMarker base arguments site.system) (hadWarning : Bool) :
    Marked base hadWarning (run arguments remote site).2.system ↔
      Marked base hadWarning site.system ∨
        (run arguments remote site).1 = .ok .success ∧
          ((prepare arguments site.system remote).onChannel site.channel).2.hadWarning =
            hadWarning := by
  obtain ⟨options, parses, isCode, isDebug, isBase⟩ := asks
  rw [run_eq]
  match prepares : (prepare arguments site.system remote).onChannel site.channel with
  | (.error .cancelled, channel) => simp [conclude]
  | (.error (.fault fault), channel) => simp [conclude]
  | (.ok none, channel) => simp [conclude]
  | (.ok (some (found, product)), channel) =>
      obtain ⟨parsesFound, _, compiles⟩ := exists_of_prepare prepares
      obtain rfl : options = found := by
        rw [parses] at parsesFound
        cases parsesFound
        rfl
      cases leads_of_compileAs compiles with
      | nothing =>
          refine (or_iff_left ?_).symm
          rintro ⟨succeeds, -⟩
          cases succeeds
      | text noCode => exact absurd (Or.inl isCode) noCode
      | code produces tells =>
          obtain ⟨outline, areFiles⟩ := produces.exists_files
          exact @Publishing.marked_publish options _ outline base { site with channel } isCode
            isDebug areFiles isBase hadWarning

/-- What becomes of a directory that is empty at first and into which one run after the other is
made that asks for a marker there.  Of each run that succeeds it is told whether a warning was
reported, from the last one on.  Between the runs everything else may change. -/
inductive MarkerHistory (base : List String) : FileSystem → List Bool → Prop where
  | empty {system : FileSystem}
      (isEmpty : ∀ place, base <+: place → place ≠ base → system.entryAt? place = none) :
      MarkerHistory base system []
  | elsewhere {system later : FileSystem} {warned : List Bool}
      (history : MarkerHistory base system warned)
      (same : ∀ place, base <+: place → place ≠ base →
        later.entryAt? place = system.entryAt? place) :
      MarkerHistory base later warned
  | failure {arguments : List String} {remote : Table String (List UInt8)} {site : Site}
      {warned : List Bool} (history : MarkerHistory base site.system warned)
      (asks : AsksForMarker base arguments site.system)
      (fails : (run arguments remote site).1 ≠ .ok .success) :
      MarkerHistory base (run arguments remote site).2.system warned
  | success {arguments : List String} {remote : Table String (List UInt8)} {site : Site}
      {warned : List Bool} {transcript : Transcript}
      {result : Except Fault (Option (Options × Product))}
      (history : MarkerHistory base site.system warned)
      (asks : AsksForMarker base arguments site.system)
      (noWarning : site.channel.hadWarning = false)
      (ends : Ends (prepare arguments site.system remote) transcript result)
      (succeeds : (run arguments remote site).1 = .ok .success) :
      MarkerHistory base (run arguments remote site).2.system
        (transcript.any Act.isWarning :: warned)

theorem hadWarning_of_ends {transcript : Transcript}
    {result : Except Fault (Option (Options × Product))}
    (ends : Ends (prepare arguments site.system remote) transcript result)
    (succeeds : (run arguments remote site).1 = .ok .success) :
    ((prepare arguments site.system remote).onChannel site.channel).2.hadWarning =
      (site.channel.hadWarning || transcript.any Act.isWarning) := by
  rw [run_eq, ends] at succeeds
  rw [ends]
  cases played : play transcript site.channel with
  | error cut =>
      rw [played] at succeeds
      cases succeeds
  | ok between =>
      rw [apply_of_play played]
      exact Transcript.hadWarning_apply transcript site.channel

/-- What succeeds has come to its end. -/
theorem halts_of_success (terminates : Terminates arguments remote site)
    (succeeds : (run arguments remote site).1 = .ok .success) :
    Halts (prepare arguments site.system remote) := by
  rw [run_eq] at succeeds
  rcases prepares : (prepare arguments site.system remote).onChannel site.channel with
    ⟨(- | fault) | prepared, channel⟩
  case ok =>
    obtain ⟨transcript, -, ends, -⟩ :=
      (scripted_prepare arguments site.system remote).exists_ends_of_returned prepares
        fun unlimited endless => by
          obtain ⟨_, _, ends⟩ := terminates unlimited
          exact ends.not_endless endless
    exact ⟨transcript, _, ends⟩
  all_goals
    rw [prepares] at succeeds
    cases succeeds

/-- The markers in a directory are those of all runs that succeeded. -/
theorem MarkerHistory.marked_iff (history : MarkerHistory base system warned) (hadWarning : Bool) :
    Marked base hadWarning system ↔ hadWarning ∈ warned := by
  have isBelow : base <+: base ++ [Publishing.markerName hadWarning] ∧
      base ++ [Publishing.markerName hadWarning] ≠ base := ⟨List.prefix_append _ _, by simp⟩
  induction history with
  | empty isEmpty =>
      simp [Marked, FileSystem.HasFile, isEmpty _ isBelow.1 isBelow.2]
  | elsewhere _ same ih =>
      refine Iff.trans ?_ ih
      rw [Marked, Marked, FileSystem.HasFile, FileSystem.HasFile, same _ isBelow.1 isBelow.2]
  | failure _ asks fails ih =>
      refine (marked_run asks hadWarning).trans (Iff.trans ?_ ih)
      exact or_iff_left fun added => fails added.1
  | success _ asks noWarning ends succeeds ih =>
      refine (marked_run asks hadWarning).trans ?_
      rw [hadWarning_of_ends ends succeeds, noWarning, Bool.false_or, List.mem_cons]
      exact (or_congr ih ⟨fun added => added.2.symm, fun same => ⟨succeeds, same.symm⟩⟩).trans
        or_comm

/-- After a run that succeeds there is the marker that tells whether this run reported a warning.
The other marker is there if and only if an earlier run that succeeded has left it. -/
theorem marked_of_success (history : MarkerHistory base site.system warned)
    (asks : AsksForMarker base arguments site.system)
    (noWarning : site.channel.hadWarning = false) (terminates : Terminates arguments remote site)
    (succeeds : (run arguments remote site).1 = .ok .success) :
    ∃ transcript result, Ends (prepare arguments site.system remote) transcript result ∧
      let hadWarning := transcript.any Act.isWarning
      Marked base hadWarning (run arguments remote site).2.system ∧
        (Marked base (!hadWarning) (run arguments remote site).2.system ↔
          (!hadWarning) ∈ warned) := by
  obtain ⟨transcript, result, ends⟩ := halts_of_success terminates succeeds
  have goesOn := history.success asks noWarning ends succeeds
  refine ⟨transcript, result, ends, (goesOn.marked_iff _).mpr List.mem_cons_self, ?_⟩
  rw [goesOn.marked_iff, List.mem_cons]
  exact or_iff_right (Bool.not_ne_self _)

/-! ## Two runs into one directory -/

/-- A document with a keyword that is ignored with a warning. -/
def patternedDocument : String :=
  "\x7b\"definitions\": \x7b\"A\": \x7b\"patternProperties\": \x7b\x7d\x7d\x7d\x7d"

/-- A directory with two documents and a directory that is empty. -/
def twoDocuments : FileSystem :=
  { current := ["work"], directories := [["work"], ["work", "out"]]
    files :=
      [(["work", "a.json"], { content := .bytes patternedDocument.toUTF8.toList }),
        (["work", "b.json"], { content := .bytes "\x7b\x7d".toUTF8.toList })] }

/-- The options of a run that leaves a marker in the empty directory. -/
def markingOptions (source : String) : Options :=
  { headlessOptions with
    arguments := ["--no-header", "--debug", "-l", "cs", "-d", "out", source]
    sources := [source], target := ⟨0, ["out"]⟩, debug := true }

/-- A run that leaves a marker in the empty directory, with a listener that is patient enough. -/
def marking (source : String) (system : FileSystem) : Except Fault Exit × Site :=
  run (markingOptions source).arguments [] { system, channel := { cancelAfter := some 9 } }

/-- What a run leaves, and whether it had a warning. -/
theorem marking_of_view {source : String} {later : FileSystem} {hadWarning : Bool}
    (parses : Options.parse .program system (markingOptions source).arguments =
      .ok (.options (markingOptions source)))
    (noVersion : versionMessage? (markingOptions source).arguments = none)
    (isSeen : (codeOf? ((compileAs (markingOptions source) system []).onChannel
        { cancelAfter := some 9 })).map (fun compiled =>
          let published := (Publishing.publish (markingOptions source) (.code compiled.1)).run
            { system, channel := compiled.2 }
          (published.1.toOption, published.2.system, compiled.2.hadWarning)) =
      some (some .success, later, hadWarning)) :
    (marking source system).1 = .ok .success ∧ (marking source system).2.system = later ∧
      ((prepare (markingOptions source).arguments system []).onChannel
        { cancelAfter := some 9 }).2.hadWarning = hadWarning := by
  obtain ⟨code, channel, compiles, isView⟩ := exists_code_of_view isSeen
  obtain ⟨succeeds, sameSystem, sameWarning⟩ := by simpa using isView
  obtain ⟨prepares, runs⟩ :=
    @run_of_compiles _ _ { system, channel := { cancelAfter := some 9 } } [] _ _ noVersion parses
      compiles
  rw [marking, runs, prepares]
  exact ⟨Except.eq_ok_of_toOption succeeds, sameSystem, sameWarning⟩

def onceMarked : FileSystem :=
  twoDocuments.putFile ["work", "out", "hadWarning"] { content := .bytes [] }

def twiceMarked : FileSystem :=
  onceMarked.putFile ["work", "out", "noWarning"] { content := .bytes [] }

theorem parse_marking : ∀ source ∈ ["a.json", "b.json"], ∀ system ∈ [twoDocuments, onceMarked],
    Options.parse .program system (markingOptions source).arguments =
      .ok (.options (markingOptions source)) := by
  have parse {source : String} {system : FileSystem} := @Options.parse_eq_of_agrees
    (Options.parse .program system (markingOptions source).arguments) (markingOptions source)
  simp only [List.forall_mem_cons, List.not_mem_nil, false_implies, implies_true, and_true]
  exact ⟨⟨parse (by decide +kernel), parse (by decide +kernel)⟩,
    ⟨parse (by decide +kernel), parse (by decide +kernel)⟩⟩

theorem marking_twoDocuments :
    (marking "a.json" twoDocuments).1 = .ok .success ∧
      (marking "a.json" twoDocuments).2.system = onceMarked ∧
      ((prepare (markingOptions "a.json").arguments twoDocuments []).onChannel
        { cancelAfter := some 9 }).2.hadWarning = true := by
  refine marking_of_view (parse_marking _ (by simp) _ (by simp)) (by decide +kernel) ?_
  rw [@compileAs_alone "a.json" "file:///work/a.json"
    [("definitions", .object [("A", .object [("patternProperties", .object [])])])]
    (markingOptions "a.json") twoDocuments [] rfl (Or.inl rfl) (by decide +kernel)
    (by decide +kernel) (by decide +kernel)]
  decide +kernel

theorem marking_onceMarked :
    (marking "b.json" onceMarked).1 = .ok .success ∧
      (marking "b.json" onceMarked).2.system = twiceMarked ∧
      ((prepare (markingOptions "b.json").arguments onceMarked []).onChannel
        { cancelAfter := some 9 }).2.hadWarning = false := by
  refine marking_of_view (parse_marking _ (by simp) _ (by simp)) (by decide +kernel) ?_
  rw [@compileAs_alone "b.json" "file:///work/b.json" [] (markingOptions "b.json") onceMarked []
    rfl (Or.inl rfl) (by decide +kernel) (by decide +kernel) (by decide +kernel)]
  decide +kernel

theorem asksForMarker_marking : ∀ source ∈ ["a.json", "b.json"],
    ∀ system ∈ [twoDocuments, onceMarked],
      AsksForMarker ["work", "out"] (markingOptions source).arguments system := by
  intro source isSource system isSystem
  refine ⟨markingOptions source, parse_marking source isSource system isSystem, rfl, rfl, ?_⟩
  have sameTarget : (markingOptions source).target = ⟨0, ["out"]⟩ := rfl
  rw [sameTarget]
  revert system
  decide +kernel

theorem markerHistory_twoDocuments : MarkerHistory ["work", "out"] twoDocuments [] := by
  refine .empty fun place isBelow differs => ?_
  obtain ⟨_ | ⟨name, rest⟩, rfl⟩ := isBelow
  · exact absurd rfl differs
  · simp [FileSystem.entryAt?, twoDocuments, Table.get?]

theorem MarkerHistory.marking {source : String} {later : FileSystem} {hadWarning : Bool}
    (history : MarkerHistory base system warned)
    (asks : AsksForMarker base (markingOptions source).arguments system)
    (leaves : (marking source system).1 = .ok .success ∧
      (marking source system).2.system = later ∧
      ((prepare (markingOptions source).arguments system []).onChannel
        { cancelAfter := some 9 }).2.hadWarning = hadWarning) :
    MarkerHistory base later (hadWarning :: warned) := by
  obtain ⟨succeeds, rfl, rfl⟩ := leaves
  let site : Site := { system, channel := { cancelAfter := some 9 } }
  obtain ⟨transcript, result, ends⟩ :=
    @halts_of_success (markingOptions source).arguments [] site (nomatch ·) succeeds
  have isWarned : _ = (false || transcript.any Act.isWarning) :=
    @hadWarning_of_ends (markingOptions source).arguments [] site _ _ ends succeeds
  rw [isWarned, Bool.false_or]
  exact @MarkerHistory.success base _ [] site _ _ _ history asks rfl ends succeeds

theorem markerHistory_onceMarked : MarkerHistory ["work", "out"] onceMarked [true] :=
  markerHistory_twoDocuments.marking (asksForMarker_marking _ (by simp) _ (by simp))
    marking_twoDocuments

/-- What a run without a warning leaves after a run with one. -/
theorem marked_of_success_twoDocuments :
    ∃ transcript result,
      Ends (prepare (markingOptions "b.json").arguments onceMarked []) transcript result ∧
      let hadWarning := transcript.any Act.isWarning
      Marked ["work", "out"] hadWarning (marking "b.json" onceMarked).2.system ∧
        (Marked ["work", "out"] (!hadWarning) (marking "b.json" onceMarked).2.system ↔
          (!hadWarning) ∈ [true]) :=
  @marked_of_success (markingOptions "b.json").arguments []
    { system := onceMarked, channel := { cancelAfter := some 9 } } ["work", "out"] [true]
    markerHistory_onceMarked (asksForMarker_marking _ (by simp) _ (by simp)) rfl (nomatch ·)
    marking_onceMarked.1

/-- A run without a warning leaves the marker of the run before it, which had one. -/
theorem both_marked_of_success :
    let first := marking "a.json" twoDocuments
    let second := marking "b.json" first.2.system
    MarkerHistory ["work", "out"] twoDocuments [] ∧ first.1 = .ok .success ∧
      second.1 = .ok .success ∧ MarkerHistory ["work", "out"] second.2.system [false, true] ∧
      Marked ["work", "out"] false second.2.system ∧
      Marked ["work", "out"] true second.2.system := by
  obtain ⟨succeeds, isOnceMarked, -⟩ := marking_twoDocuments
  obtain ⟨succeedsThen, isTwiceMarked, -⟩ := marking_onceMarked
  have history : MarkerHistory ["work", "out"] twiceMarked [false, true] :=
    markerHistory_onceMarked.marking (asksForMarker_marking _ (by simp) _ (by simp))
      marking_onceMarked
  dsimp only
  rw [isOnceMarked, isTwiceMarked]
  exact ⟨markerHistory_twoDocuments, succeeds, succeedsThen, history,
    (history.marked_iff _).mpr (by simp), (history.marked_iff _).mpr (by simp)⟩

end Program

end Typeloom
