import Typeloom.Proofs.Files.Units
import Typeloom.Proofs.Output.Delivery
import Typeloom.Proofs.Run.Alone
import Typeloom.Proofs.Run.Production

/-!
# Whole files

However a run ends, a generated file is either as it was before the run or there as a whole, unless
it is the file with which the run ends because it cannot be encoded.
-/

namespace Typeloom

open Reporting

namespace Publishing

variable {options : Options} {code : GeneratedCode} {system later : FileSystem}
  {place : List String}

/-! ## Headers -/

/-- The texts of the headers: one, or none if there is to be none. -/
def headerTexts (options : Options) (system : FileSystem) : Except Fault (List String) :=
  if options.noHeader then .ok []
  else
    match CommandLine.shown system options.arguments with
    | .ok shown => .ok [Message.fileHeader.text [Message.version.text, shown]]
    | .error error => .error (.system error)

/-- The headers of a file in pieces. -/
def headersOf (texts : List String) (fileName : String) : List String :=
  texts.flatMap fun text => Header.pieces text fileName

theorem run_headerLayers (options : Options) (site : Site) :
    (headerLayers options).run site =
      match headerTexts options site.system with
      | .ok texts => (.ok (texts.map Layer.header), site)
      | .error fault => (.error fault, site) := by
  unfold headerLayers headerTexts
  split
  · rfl
  · unfold header
    rw [run_bind, run_get_bind]
    cases CommandLine.shown site.system options.arguments <;> rfl

theorem headerPieces_layers (core : Core) (texts : List String) (options : Options) (count : Nat)
    (encoding : String) :
    Writing.headerPieces
      { core, layers := texts.map Layer.header ++ progressLayers options count, encoding } =
      headersOf texts := by
  funext fileName
  have noPieces : Writing.headerPieces
      { core, layers := progressLayers options count, encoding } fileName = [] := by
    unfold progressLayers
    split <;> rfl
  unfold Writing.headerPieces at noPieces ⊢
  dsimp only at noPieces ⊢
  rw [List.flatMap_append, noPieces, List.append_nil, List.flatMap_map]
  rfl

/-! ## Writing into a directory -/

/-- What a publication of code leaves at a place. -/
def Leaves (options : Options) (code : GeneratedCode) (system later : FileSystem)
    (place : List String) {α : Type} (result : Except Fault α) : Prop :=
  Table.get? later.files place = Table.get? system.files place ∨
    ∃ texts, headerTexts options system = .ok texts ∧ ∃ file ∈ plannedFiles options code,
      Writing.Holds options.target options.encoding (headersOf texts file.fileName) file later place
        result

theorem run_writeDirectory (options : Options) (code : GeneratedCode) (site : Site) :
    ∃ result after, (writeDirectory options code).run site = (result, after) ∧
      site.system.Persists after.system ∧
      ∀ place, Leaves options code site.system after.system place result := by
  unfold writeDirectory
  rw [deliver_eq, bind_assoc, run_bind, run_headerLayers]
  cases hasTexts : headerTexts options site.system with
  | error fault => exact ⟨_, _, rfl, .refl _, fun place => Or.inl rfl⟩
  | ok texts =>
      obtain ⟨result, after, delivers, delivered⟩ :=
        @Writing.delivered_deliver options.target options.readOnly
          { system := site.system, channel := site.channel
            writer :=
              { core := .directory options.target options.readOnly
                layers := texts.map Layer.header ++ progressLayers options code.files.length
                encoding := options.encoding } }
          rfl (plannedFiles options code)
      rw [headerPieces_layers] at delivered
      dsimp only
      rw [run_bind, run_deliverWith, delivers]
      refine ⟨result, { site with system := after.system, channel := after.channel }, ?_,
        (delivered.unchanged_or_holds []).1, fun place => ?_⟩
      · cases result <;> rfl
      · exact (delivered.unchanged_or_holds place).2.imp_right fun holds => ⟨texts, hasTexts, holds⟩

/-- The path of the marker. -/
def markerPath (options : Options) (hadWarning : Bool) : Path :=
  options.target.join (Path.parse (markerName hadWarning))

/-- The marker changes nothing but the file system, and that at one place at most. -/
theorem run_writeMarker (options : Options) (site : Site) :
    ∃ result later, (writeMarker options).run site = (result, { site with system := later }) ∧
      site.system.Persists later ∧ ∀ place,
        Table.get? later.files place = Table.get? site.system.files place ∨
        options.debug = true ∧
          ∃ hadWarning, later.locate (markerPath options hadWarning) = .ok place := by
  unfold writeMarker
  split
  · rename_i isDebug
    rw [run_get_bind, run_filing]
    obtain ⟨readOnly, puts⟩ := Filing.putsFile_writeFile
      (markerPath options site.channel.hadWarning) (.bytes []) site.system
    refine ⟨_, _, rfl, puts.persists, fun place => ?_⟩
    change Filing.PutsFile _ _ _ ((Filing.writeFile (options.target.join
      (Path.parse (markerName site.channel.hadWarning))) (.bytes [])).run site.system) at puts
    rcases written : (Filing.writeFile (options.target.join
      (Path.parse (markerName site.channel.hadWarning))) (.bytes [])).run site.system
      with ⟨fault | ⟨⟩, later⟩
    · rw [written] at puts
      cases puts with
      | refused files_eq persists => exact Or.inl (by rw [files_eq])
    · rw [written] at puts
      exact (puts.unchanged_or_put place).imp_right fun put => ⟨isDebug, _, put.1⟩
  · exact ⟨.ok (), site.system, rfl, .refl _, fun place => Or.inl rfl⟩

/-- The marker goes into the target directory. -/
theorem place_of_marker {target : Path} {base : List String} {hadWarning : Bool}
    (isBase : later.locate target = .ok base)
    (isMarker : later.locate (target.join (Path.parse (markerName hadWarning))) = .ok place) :
    place = base ++ [markerName hadWarning] := by
  have isRelative : (Path.parse (markerName hadWarning)).slashes = 0 ∧
      (Path.parse (markerName hadWarning)).parts = [markerName hadWarning] ∧
      FileSystem.IsName (markerName hadWarning) := by
    cases hadWarning <;> decide +kernel
  obtain ⟨relative, isParts, isName⟩ := isRelative
  rw [FileSystem.locate_join relative (by simpa [isParts] using isName) isBase isMarker, isParts]

/-- What code mode leaves at a place where there is no marker. -/
theorem run_publish_code (isCode : options.mode = .code) (code : GeneratedCode) (site : Site) :
    ∃ result after, (publish options (.code code)).run site = (result, after) ∧
      site.system.Persists after.system ∧ ∀ place,
        Leaves options code site.system after.system place result ∨
        ∃ hadWarning, after.system.locate (markerPath options hadWarning) = .ok place := by
  have writes : writeCode options code = writeDirectory options code := by
    unfold writeCode
    rw [isCode]
  obtain ⟨written, between, ran, persists, leaves⟩ := run_writeDirectory options code site
  unfold publish
  dsimp only
  rw [run_reportingErrors, run_bind, writes, ran]
  cases written with
  | error fault =>
      refine ⟨_, _, rfl, persists, fun place => Or.inl ?_⟩
      refine (leaves place).imp_right fun ⟨texts, hasTexts, file, occurs, holds⟩ =>
        ⟨texts, hasTexts, file, occurs, ?_⟩
      cases holds with
      | whole hasPath hasText leads isWhole holds =>
          exact .whole hasPath hasText leads isWhole holds
      | cut hasPath hasText leads notWhole isStart holds =>
          have isVerdict : (verdict (.error fault)).1 = .error fault := by
            cases fault with
            | system error => exact absurd rfl (Writing.ne_system_of_encodedFile notWhole error)
            | _ => rfl
          rw [isVerdict]
          exact .cut hasPath hasText leads notWhole isStart holds
  | ok =>
      obtain ⟨marked, later, marks, persistsThen, unchanged⟩ := run_writeMarker options between
      dsimp only
      rw [marks]
      refine ⟨_, _, rfl, persists.trans persistsThen, fun place => ?_⟩
      rcases unchanged place with same | ⟨-, isMarker⟩
      · rcases leaves place with asBefore | ⟨texts, hasTexts, file, occurs, holds⟩
        · exact Or.inl (Or.inl (same.trans asBefore))
        · refine Or.inl (Or.inr ⟨texts, hasTexts, file, occurs, ?_⟩)
          cases holds.lasts persistsThen same with
          | whole hasPath hasText leads isWhole holds =>
              exact .whole hasPath hasText leads isWhole holds
      · exact Or.inr isMarker

/-- A generated file goes where no place for a marker is. -/
theorem getLast?_ne_markerName {language : TargetLanguage} {outline : Outline}
    {file : GeneratedFile} (occurs : file ∈ language.files outline) {path : String}
    (hasPath : file.path = .ok path)
    (leads : system.locate (options.target.join (Path.parse path)) = .ok place)
    (hadWarning : Bool) : place.getLast? ≠ some (markerName hadWarning) := by
  intro endsWithMarker
  obtain ⟨stem, isName⟩ := TargetLanguage.exists_stem occurs
  rw [GeneratedFile.path, isName] at hasPath
  obtain ⟨init, last, isParts⟩ := exists_last_part hasPath
  have endsWithFile := FileSystem.getLast?_of_locate_join isParts
    (language.isName_append_fileEnd last) leads
  rw [endsWithFile] at endsWithMarker
  have sameEnd := congrArg (fun name => name.toList.getLast?) (Option.some.inj endsWithMarker)
  cases language <;> cases hadWarning <;>
    simp [TargetLanguage.fileEnd, markerName, String.toList_append] at sameEnd

/-- There is no marker where a generated file goes. -/
theorem not_marker_of_file {language : TargetLanguage} {outline : Outline} {file : GeneratedFile}
    (occurs : file ∈ language.files outline) {path : String} (hasPath : file.path = .ok path)
    (leads : system.locate (options.target.join (Path.parse path)) = .ok place)
    (hadWarning : Bool) : system.locate (markerPath options hadWarning) ≠ .ok place := by
  intro leadsMarker
  have isMarker : (Path.parse (markerName hadWarning)).parts = [] ++ [markerName hadWarning] := by
    cases hadWarning <;> decide +kernel
  have isMarkerName : FileSystem.IsName (markerName hadWarning) := by
    cases hadWarning <;> decide
  exact getLast?_ne_markerName occurs hasPath leads hadWarning
    (FileSystem.getLast?_of_locate_join isMarker isMarkerName leadsMarker)

end Publishing

namespace Program

/-- Without code there is nothing to write. -/
theorem files_of_publish_text (options : Options) (pieces : List (Except Fault String))
    (site : Site) :
    ((Publishing.publish options (.text pieces)).run site).2.system = site.system := by
  obtain ⟨result, written, shows⟩ := Publishing.run_showPieces pieces site.output
  unfold Publishing.publish
  dsimp only
  rw [Publishing.run_reportingErrors, shows]

/-- However a run ends, it leaves the places of generated files as they were, or it leaves whole
files there.  The only other file is the one with which the run ends because it cannot be
encoded. -/
theorem run_leaves_whole_files (arguments : List String) (remote : Table String (List UInt8))
    (site : Site) :
    (run arguments remote site).2.system = site.system ∨
    ∃ options code, Options.parse .program site.system arguments = .ok (.options options) ∧
      ((prepare arguments site.system remote).onChannel site.channel).1 =
        .ok (some (options, .code code)) ∧
      (options.mode = .code → ∀ file ∈ code.files, ∀ path place, file.path = .ok path →
        (run arguments remote site).2.system.locate (options.target.join (Path.parse path)) =
          .ok place →
        Publishing.Leaves options code site.system (run arguments remote site).2.system place
          (run arguments remote site).1) := by
  rw [run_eq]
  match prepares : (prepare arguments site.system remote).onChannel site.channel with
  | (.error .cancelled, channel) => exact Or.inl rfl
  | (.error (.fault fault), channel) => exact Or.inl rfl
  | (.ok none, channel) => exact Or.inl rfl
  | (.ok (some (options, .nothing)), channel) => exact Or.inl rfl
  | (.ok (some (options, .text pieces)), channel) =>
      exact Or.inl (files_of_publish_text options pieces { site with channel })
  | (.ok (some (options, .code code)), channel) =>
      obtain ⟨parses, _, compiles⟩ := exists_of_prepare prepares
      refine Or.inr ⟨options, code, parses, rfl, fun isCode file occurs path place hasPath => ?_⟩
      obtain ⟨result, after, publishes, -, leaves⟩ :=
        Publishing.run_publish_code isCode code { site with channel }
      rw [conclude, publishes]
      intro leads
      refine (leaves place).resolve_right fun ⟨hadWarning, isMarker⟩ => ?_
      obtain ⟨model, produces⟩ := exists_produces_of_compileAs compiles
      obtain ⟨outline, areFiles⟩ := produces.exists_files
      exact Publishing.not_marker_of_file (areFiles ▸ occurs) hasPath leads hadWarning isMarker

/-- A document in which an enum has a description that is not ASCII. -/
def describedEnum : String :=
  "\x7b\"definitions\": \x7b\"A\": " ++
    "\x7b\"enum\": [\"a\"], \"description\": \"é\"\x7d\x7d\x7d"

def describedEnumMembers : Json.Members :=
  [("definitions", .object
    [("A", .object [("enum", .array [.text "a"]), ("description", .text "é")])])]

/-- The options of a run that writes C# files in ASCII. -/
def asciiOptions : Options :=
  { headlessOptions with
    arguments := ["--no-header", "--encoding=ascii", "-l", "cs", "a.json"], encoding := "ascii" }

/-- A file that cannot be encoded is left behind although nothing of it could be written. -/
theorem run_leaves_empty_file : ∃ code file, ∃ after : Except Fault Exit × Site,
    run asciiOptions.arguments [] { system := systemWith describedEnum } = after ∧
    Options.parse .program (systemWith describedEnum) asciiOptions.arguments =
      .ok (.options asciiOptions) ∧
    ((prepare asciiOptions.arguments (systemWith describedEnum) []).onChannel {}).1 =
      .ok (some (asciiOptions, .code code)) ∧
    file ∈ code.files ∧ file.path = .ok "generated/A.cs" ∧
    after.2.system.locate (asciiOptions.target.join (Path.parse "generated/A.cs")) =
      .ok ["work", "generated", "A.cs"] ∧
    Table.get? (systemWith describedEnum).files ["work", "generated", "A.cs"] = none ∧
    Table.get? after.2.system.files ["work", "generated", "A.cs"] =
      some { content := .bytes [] } ∧
    ∀ text, code.render asciiOptions.generation file = .ok text →
      Writing.encodedFile true asciiOptions.encoding [text] ≠ .ok [] := by
  have noVersion : versionMessage? asciiOptions.arguments = none := by decide +kernel
  have parses : Options.parse .program (systemWith describedEnum) asciiOptions.arguments =
      .ok (.options asciiOptions) :=
    Options.parse_eq_of_agrees (by decide +kernel)
  have compiles := @compileAs_alone "a.json" "file:///work/a.json" describedEnumMembers asciiOptions
    (systemWith describedEnum) [] rfl (Or.inl rfl) (by decide +kernel) (by decide +kernel)
    (by decide +kernel)
  have areFiles :
      (codeOf? ((compileAs asciiOptions (systemWith describedEnum) []).onChannel {})).map
        (fun compiled => compiled.1.files.map fun file => (file.path.toOption,
          (compiled.1.render asciiOptions.generation file).toOption.map fun text =>
            (Writing.encodedFile true asciiOptions.encoding [text]).toOption)) =
      some [(some "generated/A.cs", some none)] := by
    rw [compiles]
    decide +kernel
  have leaves :
      (codeOf? ((compileAs asciiOptions (systemWith describedEnum) []).onChannel {})).map
        (fun compiled =>
        let after := ((Publishing.publish asciiOptions (.code compiled.1)).run
          { system := systemWith describedEnum, channel := compiled.2 }).2.system
        ((after.locate (asciiOptions.target.join (Path.parse "generated/A.cs"))).toOption,
          Table.get? after.files ["work", "generated", "A.cs"])) =
      some (some ["work", "generated", "A.cs"], some { content := .bytes [] }) := by
    rw [compiles]
    decide +kernel
  obtain ⟨code, channel, compiled, isFile⟩ := exists_code_of_view areFiles
  rw [compiled] at leaves
  obtain ⟨leads, holds⟩ := Prod.mk.inj (Option.some.inj leaves)
  obtain ⟨file, rest, areOne, isFirst, noRest⟩ := List.map_eq_cons_iff.mp isFile
  obtain ⟨hasPath, isCut⟩ := Prod.mk.inj isFirst
  obtain ⟨prepares, runs⟩ :=
    @run_of_compiles _ _ { system := systemWith describedEnum } [] _ _ noVersion parses compiled
  refine ⟨code, file, _, rfl, parses, by rw [prepares], areOne ▸ List.mem_cons_self, ?_, ?_,
    by decide +kernel, ?_, fun text isText isWhole => ?_⟩
  · exact Except.eq_ok_of_toOption hasPath
  · rw [runs]
    exact Except.eq_ok_of_toOption leads
  · rw [runs]
    exact holds
  · rw [isText] at isCut
    have isNone : (Writing.encodedFile true asciiOptions.encoding [text]).toOption = none :=
      Option.some.inj isCut
    rw [isWhole] at isNone
    cases isNone

end Program

end Typeloom
