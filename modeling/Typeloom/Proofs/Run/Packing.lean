import Typeloom.Proofs.Output.Packing
import Typeloom.Proofs.Run.Alone
import Typeloom.Proofs.Run.Verbosity
import Typeloom.Proofs.Run.WholeFiles

/-!
# Runs that pack

A run that packs its files into an archive and one that writes them below a directory compile the
same code, tell the listener the same and end in the same way, unless the system refuses
something.  The files are the same but for a byte order mark.
-/

namespace Typeloom

open Reporting Transcript

namespace Publishing

variable {options : Options} {code : GeneratedCode} {site : Site} {target : Path}
  {base place : List String} {entries : List (String × List UInt8)}

/-! ## Writing without headers -/

theorem run_deliver_headless (noHeader : options.noHeader = true) (code : GeneratedCode)
    (core : Core) (site : Site) :
    (deliver options code core).run site =
      match (Writing.deliver (plannedFiles options code)).run
          { system := site.system, channel := site.channel
            writer := { core, layers := progressLayers options code.files.length
                        encoding := options.encoding } } with
      | (result, desk) => (.ok (result, desk.writer.core),
          { site with system := desk.system, channel := desk.channel }) := by
  have noLayers : headerLayers options = pure [] := by
    rw [headerLayers, if_pos noHeader]
  rw [deliver_eq, noLayers, pure_bind, List.nil_append]
  exact run_deliverWith _ _ _

theorem isBare_progressLayers (options : Options) (count : Nat) (core : Core) :
    Writing.IsBare options.encoding
      { core, layers := progressLayers options count, encoding := options.encoding } :=
  ⟨rfl, progressLayers_filter options count, rfl⟩

theorem run_writeDirectory_eq (noHeader : options.noHeader = true) (code : GeneratedCode)
    (site : Site) :
    (writeDirectory options code).run site =
      match (Writing.deliver (plannedFiles options code)).run
          { system := site.system, channel := site.channel
            writer := { core := .directory options.target options.readOnly
                        layers := progressLayers options code.files.length
                        encoding := options.encoding } } with
      | (result, desk) =>
          (result, { site with system := desk.system, channel := desk.channel }) := by
  rw [writeDirectory, run_bind, run_deliver_headless noHeader]
  rcases (Writing.deliver (plannedFiles options code)).run _ with ⟨fault | value, desk⟩ <;> rfl

theorem run_writeDirectory_headless (noHeader : options.noHeader = true) (code : GeneratedCode)
    (site : Site) :
    ∃ result after, (writeDirectory options code).run site = (result, after) ∧
      Writing.Delivered options.target options.readOnly options.encoding (fun _ => [])
        (plannedFiles options code) site.system result after.system := by
  obtain ⟨result, after, delivers, delivered⟩ :=
    @Writing.delivered_deliver options.target options.readOnly
      { system := site.system, channel := site.channel
        writer := { core := .directory options.target options.readOnly
                    layers := progressLayers options code.files.length
                    encoding := options.encoding } }
      rfl (plannedFiles options code)
  have noPieces : Writing.headerPieces
      { core := .directory options.target options.readOnly
        layers := progressLayers options code.files.length, encoding := options.encoding } =
      fun _ => [] :=
    funext ((isBare_progressLayers options code.files.length default).headerPieces_eq_nil _)
  rw [noPieces] at delivered
  refine ⟨result, { site with system := after.system, channel := after.channel }, ?_, delivered⟩
  rw [run_writeDirectory_eq noHeader, delivers]

/-! ## Archives -/

/-- Whether an archive with entries is where it was asked for. -/
def HoldsArchive (target : Path) (site : Site) (entries : List (String × List UInt8)) : Prop :=
  if target.isCurrent then site.output.binary = .archive entries
  else ∃ place file, site.system.locate target = .ok place ∧
    Table.get? site.system.files place = some file ∧ file.content = .archive entries

/-- The options of a run that packs the files of another one into an archive. -/
def packing (options : Options) (target : Path) (arguments : List String) : Options :=
  { options with mode := .zip, target, arguments }

/-- The options of a run that writes none of the files of another one. -/
def trying (options : Options) (arguments : List String) : Options :=
  { options with mode := .dryrun, arguments }

/-- Whether the files of code can be written below a target under their own paths. -/
structure IsPlain (code : GeneratedCode) : Prop where
  files : ∀ file ∈ code.files, file.IsPlain
  names : ∀ file ∈ code.files, FileSystem.IsName file.fileName
  distinct : (code.files.map GeneratedFile.path).Nodup

theorem IsPlain.hasPlainPath (isPlain : IsPlain code) (usable : target.isUnusable = false)
    (options : Options) :
    ∀ file ∈ plannedFiles options code, Writing.HasPlainPath target file := by
  intro planned isPlanned
  obtain ⟨file, occurs, rfl⟩ := List.mem_map.mp isPlanned
  obtain ⟨path, hasPath, -, -, noNull⟩ :=
    (isPlain.files file occurs).exists_path (isPlain.names file occurs)
  exact ⟨path, hasPath, Path.isUnusable_join usable noNull, Text.before_of_notMem noNull⟩

theorem run_writeArchiveFile (noHeader : options.noHeader = true)
    (usable : options.target.isUnusable = false) {result : Except Fault Unit} {told : Transcript}
    (delivers : ∀ system channel, ∃ after, (Writing.deliver (plannedFiles options code)).run
        { system, channel, writer := { core := .archive []
                                       layers := progressLayers options code.files.length
                                       encoding := options.encoding } } = (result, after) ∧
      after.system = system ∧ after.channel = apply told channel ∧
      after.writer.core = .archive entries) (site : Site) :
    let written := (writeArchiveFile options code).run site
    IsRefused written.1 ∨ written.1 = result ∧ written.2.channel = apply told site.channel ∧
      ∃ place file, written.2.system.locate options.target = .ok place ∧
        Table.get? written.2.system.files place = some file ∧ file.content = .archive entries := by
  have refuses (content : FileContent) := Filing.onlyRefuses_writeFile usable content
  intro written
  have isWritten : written = (writeArchiveFile options code).run site := rfl
  rw [writeArchiveFile, run_bind, run_filing] at isWritten
  rcases opened : (Filing.writeFile options.target (.archive [])).run site.system with
    ⟨fault | ⟨⟩, between⟩
  · rw [opened] at isWritten
    obtain ⟨error, rfl⟩ := refuses _ _ _ _ opened
    exact Or.inl ⟨error, by rw [isWritten]⟩
  · obtain ⟨after, ran, rfl, sameChannel, isCore⟩ := delivers between site.channel
    rw [opened] at isWritten
    dsimp only at isWritten
    rw [run_bind, run_deliver_headless noHeader, ran] at isWritten
    dsimp only at isWritten
    rw [isCore, archiveContent, run_bind, run_filing] at isWritten
    dsimp only at isWritten
    obtain ⟨readOnly, puts⟩ :=
      Filing.putsFile_writeFile options.target (.archive entries) after.system
    rcases closed : (Filing.writeFile options.target (.archive entries)).run after.system with
      ⟨fault | ⟨⟩, later⟩
    · rw [closed] at isWritten
      obtain ⟨error, rfl⟩ := refuses _ _ _ _ closed
      exact Or.inl ⟨error, by rw [isWritten]⟩
    · rw [closed] at isWritten puts
      have ended : written =
          (result, { site with system := later, channel := apply told site.channel }) := by
        rw [isWritten, ← sameChannel]
        cases result <;> rfl
      rw [ended]
      cases puts with
      | @put place _ leads files_eq persists =>
          refine Or.inr ⟨rfl, rfl, place, { content := .archive entries, readOnly }, leads, ?_, rfl⟩
          exact (congrArg (fun files => Table.get? files place) files_eq).trans
            (Table.get?_set_same _ _ _)

theorem run_writeArchiveToOutput (noHeader : options.noHeader = true)
    {result : Except Fault Unit} {told : Transcript}
    (delivers : ∀ system channel, ∃ after, (Writing.deliver (plannedFiles options code)).run
        { system, channel, writer := { core := .archive []
                                       layers := progressLayers options code.files.length
                                       encoding := options.encoding } } = (result, after) ∧
      after.system = system ∧ after.channel = apply told channel ∧
      after.writer.core = .archive entries) (site : Site) :
    let written := (writeArchiveToOutput options code).run site
    IsRefused written.1 ∨ written.1 = result ∧ written.2.channel = apply told site.channel ∧
      written.2.output.binary = .archive entries := by
  intro written
  have isWritten : written = (writeArchiveToOutput options code).run site := rfl
  rw [writeArchiveToOutput, run_get_bind] at isWritten
  split at isWritten
  · exact Or.inl ⟨.textOnly, by rw [isWritten]; rfl⟩
  · obtain ⟨after, ran, sameSystem, sameChannel, isCore⟩ := delivers site.system site.channel
    dsimp only at isWritten
    rw [run_bind, run_deliver_headless noHeader, ran] at isWritten
    dsimp only at isWritten
    have ended : written =
        (result, { site with
          channel := apply told site.channel
          output := { site.output with binary := .archive entries } }) := by
      rw [isWritten, ← sameChannel, isCore, sameSystem]
      cases result <;> rfl
    rw [ended]
    exact Or.inr ⟨rfl, rfl, rfl⟩

theorem writeCode_packing (options : Options) (target : Path) (arguments : List String)
    (code : GeneratedCode) :
    writeCode (packing options target arguments) code =
      if target.isCurrent then writeArchiveToOutput (packing options target arguments) code
      else writeArchiveFile (packing options target arguments) code :=
  rfl

/-- What is written into an archive and what is told of it, by what is written into a directory. -/
theorem exists_writing (noHeader : options.noHeader = true)
    (usable : options.target.isUnusable = false) (isPlain : IsPlain code) :
    ∃ result told entries, IsAnnouncement told ∧
      (result = .ok () →
        List.Forall₂ (Writing.Packs options.encoding) (plannedFiles options code) entries) ∧
      (∀ site, let written := (writeDirectory options code).run site
        IsRefused written.1 ∨
          written.1 = result ∧ written.2.channel = apply told site.channel) ∧
      ∀ target arguments site, target.isUnusable = false →
        let written := (writeCode (packing options target arguments) code).run site
        IsRefused written.1 ∨
          written.1 = result ∧ written.2.channel = apply told site.channel ∧
            HoldsArchive target written.2 entries := by
  have isBare := isBare_progressLayers options code.files.length default
  obtain ⟨result, told, entries, isTold, packs, there, here⟩ :=
    @Writing.inStep_deliver _ options.target options.readOnly _ _
      (isPlain.hasPlainPath usable options) isBare
  refine ⟨result, told, entries, isTold, packs, fun site => ?_,
    fun target arguments site usableTarget => ?_⟩
  · intro written
    have isWritten : written = _ := run_writeDirectory_eq noHeader code site
    rw [isWritten]
    exact there site.system site.channel
  · unfold HoldsArchive
    dsimp only
    rw [writeCode_packing]
    by_cases isCurrent : target.isCurrent = true
    · rw [if_pos isCurrent, if_pos isCurrent]
      exact @run_writeArchiveToOutput (packing options target arguments) code entries noHeader _ _
        here site
    · rw [if_neg isCurrent, if_neg isCurrent]
      exact @run_writeArchiveFile (packing options target arguments) code entries noHeader
        usableTarget _ _ here site

/-! ## Markers -/

theorem isRefused_or_eq_ok_of_writeMarker (usable : options.target.isUnusable = false)
    (site : Site) :
    IsRefused ((writeMarker options).run site).1 ∨ ((writeMarker options).run site).1 = .ok () := by
  unfold writeMarker
  split
  · have noNull (hadWarning : Bool) : Char.ofNat 0 ∉ (markerName hadWarning).toList := by
      cases hadWarning <;> decide
    rw [run_get_bind, run_filing]
    have refuses := Filing.onlyRefuses_writeFile
      (Path.isUnusable_join usable (noNull site.channel.hadWarning)) (.bytes []) site.system
    dsimp only
    rcases written : (Filing.writeFile (options.target.join
      (Path.parse (markerName site.channel.hadWarning))) (.bytes [])).run site.system
      with ⟨fault | ⟨⟩, later⟩
    · obtain ⟨error, rfl⟩ := refuses _ _ written
      exact Or.inl ⟨error, rfl⟩
    · exact Or.inr rfl
  · exact Or.inr rfl

/-- All that code leads to: its files, or an archive of them, and the marker. -/
def writing (options : Options) (code : GeneratedCode) : Publishing Unit := do
  writeCode options code
  writeMarker options

/-- If nothing is refused, the marker changes nothing but one place. -/
theorem run_writing (usable : options.target.isUnusable = false)
    (goesWell : ¬IsRefused ((writing options code).run site).1) :
    let written := (writeCode options code).run site
    ¬IsRefused written.1 ∧ ∃ later,
      (writing options code).run site = (written.1, { written.2 with system := later }) ∧
      written.2.system.Persists later ∧
      ∀ place, Table.get? later.files place = Table.get? written.2.system.files place ∨
        options.debug = true ∧
          ∃ hadWarning, later.locate (markerPath options hadWarning) = .ok place := by
  refine ⟨mt IsRefused.bind goesWell, ?_⟩
  rw [writing, run_bind] at goesWell ⊢
  rcases ran : (writeCode options code).run site with ⟨fault | ⟨⟩, between⟩
  · exact ⟨between.system, rfl, .refl _, fun place => Or.inl rfl⟩
  · rw [ran] at goesWell
    obtain ⟨result, later, marks, persists, unchanged⟩ := run_writeMarker options between
    have isOk := isRefused_or_eq_ok_of_writeMarker usable between
    dsimp only at goesWell ⊢
    rw [marks] at goesWell isOk ⊢
    rw [show result = .ok () from isOk.resolve_left goesWell]
    exact ⟨later, rfl, persists, unchanged⟩

/-! ## Runs in step -/

/-- An archive stays where it is when the marker is written. -/
theorem HoldsArchive.lasts {later : FileSystem} (holds : HoldsArchive target site entries)
    (persists : site.system.Persists later)
    (unchanged : ∀ place, Table.get? later.files place = Table.get? site.system.files place ∨
      ∃ hadWarning, later.locate (target.join (Path.parse (markerName hadWarning))) = .ok place) :
    HoldsArchive target { site with system := later } entries := by
  unfold HoldsArchive at holds ⊢
  split
  · rename_i isCurrent
    rwa [if_pos isCurrent] at holds
  · rename_i notCurrent
    rw [if_neg notCurrent] at holds
    obtain ⟨place, file, leads, isThere, isArchive⟩ := holds
    have leadsThen := persists.locate leads
    refine ⟨place, file, leadsThen, ?_, isArchive⟩
    rcases unchanged place with same | ⟨hadWarning, isMarker⟩
    · exact same.trans isThere
    · exact absurd (place_of_marker leadsThen isMarker) (by simp)

/-- What a run leaves below the directory of its target: its files at their paths, and at most the
marker besides them. -/
structure LeavesFiles (options : Options) (code : GeneratedCode) (system later : FileSystem)
    (base : List String) (entries : List (String × List UInt8)) : Prop where
  files : List.Forall₂ (fun file entry => file.path = .ok entry.1 ∧
    (∃ text, code.render options.generation file = .ok text ∧
      Writing.encodedFile false options.encoding [text] = .ok entry.2) ∧
    ∃ readOnly, Table.get? later.files (base ++ (Path.parse entry.1).parts) =
      some { content := .bytes (Writing.streamMark options.encoding ++ entry.2), readOnly })
    code.files entries
  others : ∀ place, Table.get? later.files place = Table.get? system.files place ∨
    (∃ file ∈ code.files, ∃ path, file.path = .ok path ∧
      place = base ++ (Path.parse path).parts) ∨
    options.debug = true ∧ ∃ hadWarning, place = base ++ [markerName hadWarning]

/-- A plain file goes below the base. -/
theorem IsPlain.place_eq {system : FileSystem} (isPlain : IsPlain code)
    (isBase : system.locate target = .ok base) {file : GeneratedFile} (occurs : file ∈ code.files)
    {path : String} (hasPath : file.path = .ok path)
    (leads : system.locate (target.join (Path.parse path)) = .ok place) :
    place = base ++ (Path.parse path).parts := by
  obtain ⟨path', hasPath', relative, areNames, -⟩ :=
    (isPlain.files file occurs).exists_path (isPlain.names file occurs)
  obtain rfl := Except.ok.inj (hasPath.symm.trans hasPath')
  exact FileSystem.locate_join relative areNames isBase leads

/-- No two plain files of code go to the same place. -/
theorem IsPlain.apart {system : FileSystem} (isPlain : IsPlain code)
    (isBase : system.locate target = .ok base) (options : Options) :
    (plannedFiles options code).Pairwise fun file other => ∀ path path' place,
      unitPath file.package file.fileName = .ok path →
      unitPath other.package other.fileName = .ok path' →
      system.locate (target.join (Path.parse path)) = .ok place →
      system.locate (target.join (Path.parse path')) ≠ .ok place := by
  have distinct := isPlain.distinct
  rw [List.Nodup, List.pairwise_map] at distinct
  rw [plannedFiles, List.pairwise_map]
  refine distinct.imp_of_mem fun {file other} occurs occurs' differ path path' place hasPath
    hasPath' leads leads' => differ ?_
  have isPath : file.path = .ok path := hasPath
  have isPath' : other.path = .ok path' := hasPath'
  have sameParts := (isPlain.place_eq isBase occurs isPath leads).symm.trans
    (isPlain.place_eq isBase occurs' isPath' leads')
  rw [isPath, isPath', (isPlain.files file occurs).path_eq_of_parts_eq (isPlain.files other occurs')
    (isPlain.names file occurs) (isPlain.names other occurs') isPath isPath'
    (List.append_cancel_left sameParts)]

theorem leavesFiles_of_delivered {system between later : FileSystem} (isPlain : IsPlain code)
    (areFiles : ∃ outline, code.files = options.language.files outline)
    (isBase : system.locate options.target = .ok base)
    (delivered : Writing.Delivered options.target options.readOnly options.encoding (fun _ => [])
      (plannedFiles options code) system (.ok ()) between)
    (packs : List.Forall₂ (Writing.Packs options.encoding) (plannedFiles options code) entries)
    (persists : between.Persists later)
    (unchanged : ∀ place, Table.get? later.files place = Table.get? between.files place ∨
      options.debug = true ∧
        ∃ hadWarning, later.locate (markerPath options hadWarning) = .ok place) :
    LeavesFiles options code system later base entries := by
  have isBaseThen := (delivered.unchanged_or_holds []).1.locate isBase
  have isBaseAtLast := persists.locate isBaseThen
  obtain ⟨outline, areFiles⟩ := areFiles
  constructor
  · have holds := delivered.holds (isPlain.apart isBaseThen options)
    have both := (List.forall₂_and_left _ _).mpr ⟨holds, packs⟩
    rw [plannedFiles, List.forall₂_map_left_iff] at both
    have occurs := (List.forall₂_and_left _ _).mpr ⟨fun file occurs => occurs, both⟩
    refine occurs.imp fun file entry
      ⟨occurs, ⟨place, holds⟩, isPath, text, hasText, isEncoded⟩ => ?_
    have hasPath : file.path = .ok entry.1 := isPath
    refine ⟨hasPath, ⟨text, hasText, isEncoded⟩, ?_⟩
    cases holds with
    | @whole path text' bytes readOnly _ isPath' hasText' leads isWhole isThere =>
        obtain rfl := Except.ok.inj (isPath.symm.trans isPath')
        obtain rfl := Except.ok.inj (hasText.symm.trans hasText')
        rw [List.nil_append, Writing.encodedFile_true, isEncoded] at isWhole
        obtain rfl := Except.ok.inj isWhole
        rw [← isPlain.place_eq isBaseThen occurs hasPath leads]
        refine ⟨readOnly, ?_⟩
        -- The marker comes last and is none of the files, so it replaces none of them.
        rcases unchanged place with same | ⟨-, hadWarning, isMarker⟩
        · exact same.trans isThere
        · exact absurd isMarker
            (not_marker_of_file (areFiles ▸ occurs) hasPath (persists.locate leads) hadWarning)
  · intro place
    rcases unchanged place with same | ⟨isDebug, hadWarning, isMarker⟩
    · rcases (delivered.unchanged_or_holds place).2 with asBefore | ⟨planned, isPlanned, holds⟩
      · exact Or.inl (same.trans asBefore)
      · obtain ⟨file, occurs, rfl⟩ := List.mem_map.mp isPlanned
        obtain ⟨path, hasPath, leads⟩ := holds.exists_path
        exact Or.inr (Or.inl ⟨file, occurs, path, hasPath,
          isPlain.place_eq isBaseThen occurs hasPath leads⟩)
    · exact Or.inr (Or.inr ⟨isDebug, hadWarning, place_of_marker isBaseAtLast isMarker⟩)

/-- A publication at which nothing is refused tells the listener nothing at its end. -/
theorem run_publish_of_not_isRefused (goesWell : ¬IsRefused ((writing options code).run site).1) :
    (publish options (.code code)).run site =
      ((verdict ((writing options code).run site).1).1, ((writing options code).run site).2) := by
  have publishes : (publish options (.code code)).run site = _ :=
    run_reportingErrors (writing options code) site
  rw [publishes]
  rcases ran : (writing options code).run site with ⟨fault | ⟨⟩, after⟩
  · rw [ran] at goesWell
    cases fault with
    | system error => exact absurd ⟨error, rfl⟩ goesWell
    | _ => rfl
  · rfl

theorem eq_ok_of_verdict {result : Except Fault Unit}
    (succeeds : (verdict result).1 = .ok .success) : result = .ok () := by
  rcases result with fault | ⟨⟩
  · cases fault <;> cases succeeds
  · rfl

/-- Publishing into an archive does the same as publishing into a directory, if nothing is refused
on either side. -/
theorem publish_packing (noHeader : options.noHeader = true) (isCode : options.mode = .code)
    (usable : options.target.isUnusable = false) (usableTarget : target.isUnusable = false)
    (isPlain : IsPlain code) (areFiles : ∃ outline, code.files = options.language.files outline)
    (isBase : site.system.locate options.target = .ok base) (recorded : List String)
    (goesWell : ¬IsRefused ((writing options code).run site).1)
    (packsWell : ¬IsRefused ((writing (packing options target recorded) code).run site).1) :
    let written := (publish options (.code code)).run site
    let packed := (publish (packing options target recorded) (.code code)).run site
    packed.1 = written.1 ∧ packed.2.channel = written.2.channel ∧
      (∃ told, IsAnnouncement told ∧ written.2.channel = apply told site.channel) ∧
      (written.1 = .ok .success → ∃ entries,
        LeavesFiles options code site.system written.2.system base entries ∧
          HoldsArchive target packed.2 entries) := by
  have isDirectory : writeCode options code = writeDirectory options code := by
    rw [writeCode, isCode]
  obtain ⟨result, told, entries, isTold, packs, there, here⟩ :=
    exists_writing noHeader usable isPlain
  specialize there site
  specialize here target recorded site usableTarget
  obtain ⟨wentWell, later, ran, persists, unchanged⟩ := run_writing usable goesWell
  obtain ⟨packedWell, laterThere, ranThere, persistsThere, unchangedThere⟩ :=
    run_writing usableTarget packsWell
  rw [isDirectory] at wentWell ran persists unchanged
  obtain ⟨sameResult, isChannel⟩ := there.resolve_left wentWell
  obtain ⟨sameResultThere, isChannelThere, holds⟩ := here.resolve_left packedWell
  rw [run_publish_of_not_isRefused goesWell, run_publish_of_not_isRefused packsWell, ran, ranThere]
  dsimp only
  rw [sameResult, sameResultThere, isChannel, isChannelThere]
  refine ⟨rfl, rfl, ⟨told, isTold, rfl⟩, fun succeeds => ⟨entries, ?_, ?_⟩⟩
  · have isOk := eq_ok_of_verdict succeeds
    obtain ⟨result', after, wrote, delivered⟩ := run_writeDirectory_headless noHeader code site
    rw [wrote] at sameResult persists unchanged
    obtain rfl : result' = .ok () := sameResult.trans isOk
    exact leavesFiles_of_delivered isPlain areFiles isBase delivered (packs isOk) persists unchanged
  · exact holds.lasts persistsThere fun place => (unchangedThere place).imp_right And.right

theorem publish_trying (usable : options.target.isUnusable = false) (recorded : List String)
    (triesWell : ¬IsRefused ((writing (trying options recorded) code).run site).1) :
    let tried := (publish (trying options recorded) (.code code)).run site
    tried.2.channel = site.channel ∧ ∀ place,
      Table.get? tried.2.system.files place = Table.get? site.system.files place ∨
        options.debug = true ∧
          ∃ hadWarning, tried.2.system.locate (markerPath options hadWarning) = .ok place := by
  obtain ⟨-, later, ran, -, unchanged⟩ :=
    @run_writing (trying options recorded) code site usable triesWell
  rw [run_publish_of_not_isRefused triesWell, ran]
  exact ⟨rfl, unchanged⟩

end Publishing

namespace Program

open Publishing

variable {options : Options} {site : Site} {remote : Table String (List UInt8)}

/-- Whether the system refuses something when a run writes what it has compiled. -/
def MeetsRefusal (options : Options) (remote : Table String (List UInt8)) (site : Site) : Prop :=
  ∃ code channel,
    (compileAs options site.system remote).onChannel site.channel = (.ok (.code code), channel) ∧
      IsRefused ((writing options code).run { site with channel }).1

/-- What is compiled does not depend on where the files go. -/
theorem compileAs_packing (isCode : options.mode = .code) (target : Path) (recorded : List String)
    (system : FileSystem) (remote : Table String (List UInt8)) :
    compileAs (packing options target recorded) system remote =
      compileAs options system remote := by
  obtain ⟨⟩ := options
  cases isCode
  rfl

theorem compileAs_trying (isCode : options.mode = .code) (recorded : List String)
    (system : FileSystem) (remote : Table String (List UInt8)) :
    compileAs (trying options recorded) system remote = compileAs options system remote := by
  obtain ⟨⟩ := options
  cases isCode
  rfl

theorem carryOut_of_compiles {product : Product} {channel : Channel}
    (compiles : (compileAs options site.system remote).onChannel site.channel =
      (.ok product, channel)) :
    carryOut options remote site = (publish options product).run { site with channel } := by
  rw [carryOut_eq, compiles]
  rfl

theorem carryOut_of_stops {stop : Stop} {channel : Channel}
    (compiles : (compileAs options site.system remote).onChannel site.channel =
      (.error stop, channel)) :
    carryOut options remote site = conclude site (.error stop, channel) := by
  rw [carryOut_eq, compiles]

/-- What three runs have in common that compile the same: one that writes its files below the
directory of its target, one that packs them into an archive at another target, and one that writes
none of them. -/
structure RunInStep (options : Options) (target : Path) (system : FileSystem)
    (written packed tried : Except Fault Exit × Site) : Prop where
  exit : packed.1 = written.1
  channel : packed.2.channel = written.2.channel
  /-- All that only the first two tell the listener is which files they write. -/
  announced : ∃ told, IsAnnouncement told ∧ written.2.channel = apply told tried.2.channel
  untouched : ∀ place, Table.get? tried.2.system.files place = Table.get? system.files place ∨
    options.debug = true ∧
      ∃ hadWarning, tried.2.system.locate (markerPath options hadWarning) = .ok place
  files : written.1 = .ok .success →
    ∃ (code : GeneratedCode) (before : Channel), ∃ base entries,
      tried.2.channel = before.tell (.compiled code.outline code.files.length) ∧
        system.locate options.target = .ok base ∧
        LeavesFiles options code system written.2.system base entries ∧
        HoldsArchive target packed.2 entries

/-- Runs that do not get so far as to write are the same. -/
theorem runInStep_of_eq {target : Path} {outcome written packed tried : Except Fault Exit × Site}
    (fails : outcome.1 ≠ .ok .success) (sameSystem : outcome.2.system = site.system)
    (isWritten : written = outcome) (isPacked : packed = outcome) (isTried : tried = outcome) :
    RunInStep options target site.system written packed tried := by
  subst isWritten isPacked isTried
  exact ⟨rfl, rfl, ⟨[], isAnnouncement_nil, rfl⟩, fun place => Or.inl (by rw [sameSystem]),
    fun succeeds => absurd succeeds fails⟩

/-- A run that packs its files does what one does that writes them below a directory, and both do
what one does that writes none of them, until they write. -/
theorem packing_inStep {arguments : List String} {target : Path}
    (parses : Options.parse .program site.system arguments = .ok (.options options))
    (isCode : options.mode = .code) (noHeader : options.noHeader = true)
    (usable : target.isUnusable = false) (recorded tried : List String)
    (plain : ∀ code channel, (compileAs options site.system remote).onChannel site.channel =
      (.ok (.code code), channel) →
        (∀ file ∈ code.files, file.IsPlain) ∧ (code.files.map GeneratedFile.path).Nodup)
    (goesWell : ¬MeetsRefusal options remote site)
    (packsWell : ¬MeetsRefusal (packing options target recorded) remote site)
    (triesWell : ¬MeetsRefusal (trying options tried) remote site) :
    RunInStep options target site.system (carryOut options remote site)
      (carryOut (packing options target recorded) remote site)
      (carryOut (trying options tried) remote site) := by
  have packs := compileAs_packing isCode target recorded site.system remote
  have tries := compileAs_trying isCode tried site.system remote
  obtain ⟨usableBase, base, isBase, -⟩ := FileSystem.exists_place_of_isDirectory
    ((Options.settled_of_parse parses).target rfl isCode)
  rcases compiles : (compileAs options site.system remote).onChannel site.channel with
    ⟨stop | product, channel⟩
  · refine runInStep_of_eq ?_ ?_ (carryOut_of_stops compiles) (carryOut_of_stops (packs ▸ compiles))
      (carryOut_of_stops (tries ▸ compiles))
    · cases stop <;> exact nofun
    · cases stop <;> rfl
  · have isWritten := carryOut_of_compiles compiles
    have isPacked := carryOut_of_compiles (packs ▸ compiles)
    have isTried := carryOut_of_compiles (tries ▸ compiles)
    cases leads_of_compileAs compiles with
    | nothing =>
        refine runInStep_of_eq (fun succeeds => ?_) rfl isWritten isPacked isTried
        cases succeeds
    | text noCode => exact absurd (Or.inl isCode) noCode
    | @code code model before produces tells =>
        obtain ⟨outline, areFiles⟩ := produces.exists_files
        obtain ⟨arePlain, distinct⟩ := plain code channel compiles
        have names : ∀ file ∈ code.files, FileSystem.IsName file.fileName :=
          fun file occurs => TargetLanguage.isName_of_mem_files (areFiles ▸ occurs)
        have wroteWell := fun isRefused => goesWell ⟨code, channel, compiles, isRefused⟩
        have packedWell := fun isRefused => packsWell ⟨code, channel, packs ▸ compiles, isRefused⟩
        have triedWell := fun isRefused => triesWell ⟨code, channel, tries ▸ compiles, isRefused⟩
        obtain ⟨sameExit, sameChannel, announced, files⟩ :=
          @publish_packing options code { site with channel } target base noHeader isCode
            usableBase usable ⟨arePlain, names, distinct⟩ ⟨outline, areFiles⟩ isBase recorded
            wroteWell packedWell
        obtain ⟨isChannel, untouched⟩ :=
          @publish_trying options code { site with channel } usableBase tried triedWell
        rw [isWritten, isPacked, isTried]
        refine ⟨sameExit, sameChannel, isChannel ▸ announced, untouched, fun succeeds => ?_⟩
        obtain ⟨entries, leaves, holds⟩ := files succeeds
        exact ⟨code, before, base, entries, isChannel.trans tells, isBase, leaves, holds⟩

/-! ### Runs on one enum -/

/-- A document with an enum. -/
def plainEnum : String :=
  "\x7b\"definitions\": \x7b\"A\": \x7b\"enum\": [\"a\"]\x7d\x7d\x7d"

def plainEnumMembers : Json.Members :=
  [("definitions", .object [("A", .object [("enum", .array [.text "a"])])])]

/-- A directory with that document and an empty directory. -/
def plainEnumSystem : FileSystem :=
  { systemWith plainEnum with directories := [["work"], ["work", "out"]] }

/-- The options of a run that writes the C# files of that document into the empty directory. -/
def plainEnumOptions (encoding : String) : Options :=
  { headlessOptions with
    arguments := ["--no-header", "--encoding", encoding, "-l", "cs", "-d", "out", "a.json"]
    target := ⟨0, ["out"]⟩, encoding }

/-- The options of a run that packs them. -/
def packedEnumOptions (encoding : String) : Options :=
  packing (plainEnumOptions encoding) ⟨0, ["out.zip"]⟩
    ["--no-header", "--encoding", encoding, "-l", "cs", "--mode=zip", "-d", "out.zip", "a.json"]

/-- A run that has written all it has compiled has not met a refusal. -/
theorem not_meetsRefusal_of_view
    (isSeen : (codeOf? ((compileAs options site.system remote).onChannel site.channel)).map
      (fun compiled =>
        ((writing options compiled.1).run { site with channel := compiled.2 }).1.toOption) =
      some (some ())) : ¬MeetsRefusal options remote site := by
  rintro ⟨code, channel, compiles, error, isRefused⟩
  rw [compiles] at isSeen
  have isOk := Option.some.inj isSeen
  dsimp only at isOk
  rw [isRefused] at isOk
  cases isOk

theorem compileAs_plainEnum (encoding : String) :
    compileAs (plainEnumOptions encoding) plainEnumSystem [] = (do
      modify fun channel => { channel with quiet := false, verbose := false }
      Compilation.tellProgress (plainEnumOptions encoding) .parsingSchema
      poll
      match ← Loading.modelOf [("file:///work/a.json", plainEnumMembers)]
          (Compilation.request (plainEnumOptions encoding)) with
      | none => Compilation.failWith .parseFailed
      | some model => do
          Compilation.tellProgress (plainEnumOptions encoding) .compilingSchema
          Compilation.compileCode (plainEnumOptions encoding) [] model) :=
  @compileAs_alone "a.json" "file:///work/a.json" plainEnumMembers (plainEnumOptions encoding)
    plainEnumSystem [] rfl (Or.inl rfl) (by decide +kernel) (by decide +kernel) (by decide +kernel)

theorem isPlain_of_plainEnum {code : GeneratedCode}
    (areFiles : code.files.map (fun file => (file.package, file.fileName)) =
      [(.text "generated", "A.cs")]) :
    (∀ file ∈ code.files, file.IsPlain) ∧ (code.files.map GeneratedFile.path).Nodup := by
  obtain ⟨file, rest, areOne, isFile, noRest⟩ := List.map_eq_cons_iff.mp areFiles
  obtain ⟨isPackage, isName⟩ := Prod.mk.inj isFile
  obtain rfl := List.map_eq_nil_iff.mp noRest
  rw [areOne]
  refine ⟨List.forall_mem_singleton.mpr ⟨⟨"generated", isPackage, Or.inr (by decide)⟩, ?_, ?_⟩,
    List.nodup_singleton _⟩
  all_goals
    rw [isName]
    decide

theorem packing_inStep_plainEnum :
    (carryOut (plainEnumOptions "utf-8") [] { system := plainEnumSystem }).1 = .ok .success ∧
    RunInStep (plainEnumOptions "utf-8") ⟨0, ["out.zip"]⟩ plainEnumSystem
      (carryOut (plainEnumOptions "utf-8") [] { system := plainEnumSystem })
      (carryOut (packedEnumOptions "utf-8") [] { system := plainEnumSystem })
      (carryOut (trying (plainEnumOptions "utf-8") []) [] { system := plainEnumSystem }) := by
  have parses : Options.parse .program plainEnumSystem (plainEnumOptions "utf-8").arguments =
      .ok (.options (plainEnumOptions "utf-8")) :=
    Options.parse_eq_of_agrees (by decide +kernel)
  have compiles := compileAs_plainEnum "utf-8"
  have goesWell : ¬MeetsRefusal (plainEnumOptions "utf-8") [] { system := plainEnumSystem } := by
    apply not_meetsRefusal_of_view
    dsimp only
    rw [compiles]
    decide +kernel
  have packsWell : ¬MeetsRefusal (packedEnumOptions "utf-8") [] { system := plainEnumSystem } := by
    apply not_meetsRefusal_of_view
    rw [packedEnumOptions, compileAs_packing rfl]
    dsimp only
    rw [compiles]
    decide +kernel
  have triesWell :
      ¬MeetsRefusal (trying (plainEnumOptions "utf-8") []) [] { system := plainEnumSystem } := by
    apply not_meetsRefusal_of_view
    rw [compileAs_trying rfl]
    dsimp only
    rw [compiles]
    decide +kernel
  have isSeen :
      (codeOf? ((compileAs (plainEnumOptions "utf-8") plainEnumSystem []).onChannel {})).map
        (fun compiled => (compiled.1.files.map fun file => (file.package, file.fileName),
          ((publish (plainEnumOptions "utf-8") (.code compiled.1)).run
            { system := plainEnumSystem, channel := compiled.2 }).1.toOption)) =
      some ([(.text "generated", "A.cs")], some .success) := by
    rw [compiles]
    decide +kernel
  obtain ⟨code, channel, compiled, isSeen⟩ := exists_code_of_view isSeen
  obtain ⟨areFiles, isSuccess⟩ := Prod.mk.inj isSeen
  have plain : ∀ code channel,
      (compileAs (plainEnumOptions "utf-8") plainEnumSystem []).onChannel {} =
        (.ok (.code code), channel) →
      (∀ file ∈ code.files, file.IsPlain) ∧ (code.files.map GeneratedFile.path).Nodup := by
    intro other channel' compiled'
    obtain ⟨isCode, -⟩ := Prod.mk.inj (compiled'.symm.trans compiled)
    obtain ⟨rfl⟩ := Except.ok.inj isCode
    exact isPlain_of_plainEnum areFiles
  refine ⟨?_, @packing_inStep (plainEnumOptions "utf-8") { system := plainEnumSystem } []
    (plainEnumOptions "utf-8").arguments ⟨0, ["out.zip"]⟩ parses rfl rfl rfl _ [] plain goesWell
    packsWell triesWell⟩
  rw [@carryOut_of_compiles _ { system := plainEnumSystem } _ _ _ compiled]
  exact Except.eq_ok_of_toOption isSuccess

/-- A file in UTF-16 has a byte order mark in a directory but none in an archive. -/
theorem packing_lacks_mark :
    let site : Site := { system := plainEnumSystem }
    let written := carryOut (plainEnumOptions "utf-16") [] site
    let packed := carryOut (packedEnumOptions "utf-16") [] site
    Options.parse .program plainEnumSystem (plainEnumOptions "utf-16").arguments =
        .ok (.options (plainEnumOptions "utf-16")) ∧
      Options.parse .program plainEnumSystem (packedEnumOptions "utf-16").arguments =
        .ok (.options (packedEnumOptions "utf-16")) ∧
      (∃ code channel, (compileAs (plainEnumOptions "utf-16") plainEnumSystem []).onChannel {} =
          (.ok (.code code), channel) ∧
        code.files.map (fun file => (file.package, file.fileName)) =
          [(.text "generated", "A.cs")]) ∧
      written.1 = .ok .success ∧ packed.1 = .ok .success ∧
      ∃ entry,
        Table.get? written.2.system.files ["work", "out", "generated", "A.cs"] =
          some { content := .bytes ([0xff, 0xfe] ++ entry) } ∧
        Table.get? packed.2.system.files ["work", "out.zip"] =
          some { content := .archive [("generated/A.cs", entry)] } := by
  have compiles := compileAs_plainEnum "utf-16"
  have isSeen :
      (codeOf? ((compileAs (plainEnumOptions "utf-16") plainEnumSystem []).onChannel {})).map
        (fun compiled =>
          let site : Site := { system := plainEnumSystem, channel := compiled.2 }
          let written := (publish (plainEnumOptions "utf-16") (.code compiled.1)).run site
          let packed := (publish (packedEnumOptions "utf-16") (.code compiled.1)).run site
          let file := Table.get? written.2.system.files ["work", "out", "generated", "A.cs"]
          let entry := (file.elim [] (·.content.toBytes)).drop 2
          (compiled.1.files.map fun file => (file.package, file.fileName),
            written.1.toOption, packed.1.toOption,
            decide (file = some { content := .bytes ([0xff, 0xfe] ++ entry) }),
            decide (Table.get? packed.2.system.files ["work", "out.zip"] =
              some { content := .archive [("generated/A.cs", entry)] }))) =
      some ([(.text "generated", "A.cs")], some .success, some .success, true, true) := by
    rw [compiles]
    decide +kernel
  obtain ⟨code, channel, compiled, isSeen⟩ := exists_code_of_view isSeen
  simp only [Prod.mk.injEq, decide_eq_true_eq] at isSeen
  obtain ⟨areFiles, wentWell, packedWell, isFile, isArchive⟩ := isSeen
  have packs : compileAs (packedEnumOptions "utf-16") plainEnumSystem [] =
      compileAs (plainEnumOptions "utf-16") plainEnumSystem [] :=
    compileAs_packing rfl _ _ _ _
  intro site written packed
  have isWritten : written = _ := @carryOut_of_compiles _ site _ _ _ compiled
  have isPacked : packed = _ :=
    @carryOut_of_compiles (packedEnumOptions "utf-16") site _ _ _ (packs ▸ compiled)
  rw [isWritten, isPacked]
  exact ⟨Options.parse_eq_of_agrees (by decide +kernel),
    Options.parse_eq_of_agrees (by decide +kernel), ⟨code, channel, compiled, areFiles⟩,
    Except.eq_ok_of_toOption wentWell, Except.eq_ok_of_toOption packedWell, _, isFile, isArchive⟩

end Program

end Typeloom
