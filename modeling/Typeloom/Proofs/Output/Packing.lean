import Typeloom.Proofs.Output.Delivery

/-!
# Packing files

A writer with an archive does in step what a writer with a directory does, unless the system
refuses to put a file into the directory: the same is announced, and both end in the same way.
What goes into the archive lacks the byte order mark that only a stream with a start gets.
-/

namespace Typeloom

namespace Encoding

/-- The byte order mark that a text gets only at the start of a stream that has one. -/
def streamMark : Charset → List UInt8
  | .utf16Marked => startMark true .utf16Marked
  | .utf32Marked => startMark true .utf32Marked
  | _ => []

theorem startMark_eq_streamMark_append (charset : Charset) :
    startMark true charset = streamMark charset ++ startMark false charset := by
  cases charset <;> rfl

end Encoding

namespace Writing

open Transcript

variable {writer : Writer} {target : Path} {readOnly : Bool} {file : PlannedFile}
  {files : List PlannedFile} {encoding path name text : String}

/-- The byte order mark of files in a directory that those in an archive lack. -/
def streamMark (encoding : String) : List UInt8 :=
  match charsetNamed encoding with
  | .ok charset => Encoding.streamMark charset
  | .error _ => []

theorem encodedFile_true (encoding : String) (texts : List String) :
    encodedFile true encoding texts =
      (encodedFile false encoding texts).map (streamMark encoding ++ ·) := by
  unfold encodedFile streamMark
  cases charsetNamed encoding with
  | error fault => rfl
  | ok charset =>
      dsimp only
      cases Encoding.encode? charset (String.join texts) with
      | none => rfl
      | some bytes =>
          rw [Encoding.startMark_eq_streamMark_append]
          exact congrArg Except.ok (List.append_assoc _ _ _)

/-! ## Closing one file -/

/-- How writing a file ends that got so far, if it can be put. -/
def Portion.result (portion : Portion) : Except Fault Unit :=
  portion.ending (.ok ())

/-- Without headers a file is abandoned only because there is no character set. -/
theorem ne_unencodable_of_abandoned {destination : Destination} {bytes : List UInt8} {fault : Fault}
    (isPortion : portion destination encoding [] text = .abandoned bytes fault) :
    fault ≠ .unencodable := by
  unfold portion at isPortion
  split at isPortion
  · rename_i isMissing
    cases isPortion
    unfold charsetNamed at isMissing
    split at isMissing
    · cases isMissing
      exact nofun
    · split at isMissing <;> cases isMissing
      exact nofun
  · cases isPortion

/-- How writing a file ends, and what it holds if it is whole. -/
theorem result_of_portion (destination : Destination) (encoding : String) (headers : List String)
    (text : String) :
    (portion destination encoding headers text).result =
        (encodedFile destination.isSeekable encoding (headers ++ [text])).map (fun _ => ()) ∧
      ∀ bytes, encodedFile destination.isSeekable encoding (headers ++ [text]) = .ok bytes →
        (portion destination encoding headers text).bytes = bytes := by
  rcases portion_cases destination encoding headers text with
    ⟨bytes, isWhole, isPortion⟩ | ⟨bytes, fault, notWhole, -, isPortion | ⟨rfl, isPortion⟩⟩
  · rw [isPortion, isWhole]
    exact ⟨rfl, fun _ same => Except.ok.inj same⟩
  · rw [isPortion, notWhole]
    exact ⟨rfl, nofun⟩
  · rw [isPortion, notWhole]
    exact ⟨rfl, nofun⟩

/-- Without headers it does not matter to the end of writing a file where it goes: the mark at the
start of a stream does not decide whether a text can be encoded. -/
theorem result_of_bare_portion (destination : Destination) (encoding text : String) :
    (portion destination encoding [] text).result =
      (encodedFile false encoding [text]).map fun _ => () := by
  rw [(result_of_portion destination encoding [] text).1, List.nil_append]
  cases destination.isSeekable with
  | false => rfl
  | true =>
      rw [encodedFile_true]
      cases encodedFile false encoding [text] <;> rfl

/-- Closing a file in a directory changes nothing but the file system, unless the system refuses
to put it. -/
theorem isRefused_or_run_closePortion_path {desk : Desk} {destination : Path}
    (isDirectory : desk.writer.core = .directory target readOnly)
    (usable : destination.isUnusable = false) (portion : Portion) :
    IsRefused ((closePortion (.path destination readOnly) portion).run desk).1 ∨
    ∃ later, (closePortion (.path destination readOnly) portion).run desk =
      (portion.result, { desk with system := later }) := by
  have refuses := Filing.onlyRefuses_replaceFile usable portion.bytes readOnly desk.system
  rw [run_closePortion_path isDirectory]
  rcases replaced : (Filing.replaceFile destination portion.bytes readOnly).run desk.system with
    ⟨refusal | ⟨⟩, later⟩
  · obtain ⟨error, rfl⟩ := refuses _ _ replaced
    cases portion with
    | abandoned bytes fault => exact Or.inr ⟨later, rfl⟩
    | finished bytes complete => exact Or.inl ⟨error, rfl⟩
  · exact Or.inr ⟨later, rfl⟩

/-- Closing a file in an archive adds it, whole or not. -/
theorem run_closePortion_entry {desk : Desk} {entries : List (String × List UInt8)}
    (isArchive : desk.writer.core = .archive entries) (name : String) {portion : Portion}
    (noText : ∀ bytes fault, portion = .abandoned bytes fault → fault ≠ .unencodable) :
    (closePortion (.entry name) portion).run desk =
      (portion.result,
        { desk with writer :=
          { desk.writer with core := .archive (entries ++ [(name, portion.bytes)]) } }) := by
  have commits (bytes : List UInt8) : (commit (.entry name) bytes).run desk =
      (.ok (), { desk with writer :=
        { desk.writer with core := .archive (entries ++ [(name, bytes)]) } }) := by
    obtain ⟨system, channel, writer⟩ := desk
    obtain ⟨core, layers, encoding, closings⟩ := writer
    cases isArchive
    rfl
  cases portion with
  | abandoned bytes fault =>
      have sameFault (after : Desk) : (openingFault fault).run after = (.ok fault, after) := by
        unfold openingFault
        rw [run_get_bind]
        split
        · exact absurd rfl (noText bytes _ rfl)
        · rfl
      rw [closePortion, abandon, run_bind, run_tryCatch, commits]
      dsimp only
      rw [run_bind, sameFault]
      rfl
  | finished bytes complete =>
      rw [closePortion, run_bind, commits]
      cases complete <;> rfl

/-! ## Writing in step -/

/-- Whether a writer is open and writes no headers, in a character set. -/
structure IsBare (encoding : String) (writer : Writer) : Prop where
  isOpen : writer.closings = 0
  noHeaders : writer.layers.filter Layer.isHeader = []
  encoding_eq : writer.encoding = encoding

theorem IsBare.headerPieces_eq_nil (isBare : IsBare encoding writer) (core : Core)
    (fileName : String) : headerPieces { writer with core } fileName = [] := by
  rw [← headerPieces_muted]
  unfold headerPieces Writer.muted
  dsimp only
  rw [isBare.noHeaders, List.flatMap_nil]

/-- A computation does with an archive what it does with a directory, unless the system refuses
something there.  If it succeeds, what it adds to the archive is as given. -/
def InStep (target : Path) (readOnly : Bool) (encoding : String) (action : Writing Unit)
    (packs : List (String × List UInt8) → Prop) : Prop :=
  ∀ writer, IsBare encoding writer → ∃ result changed told added,
    IsBare encoding changed ∧ IsAnnouncement told ∧ (result = .ok () → packs added) ∧
    (∀ system channel,
      let outcome := action.run
        { system, channel, writer := { writer with core := .directory target readOnly } }
      IsRefused outcome.1 ∨ ∃ later, outcome =
        (result, { system := later, channel := apply told channel
                   writer := { changed with core := .directory target readOnly } })) ∧
    ∀ system channel entries,
      action.run { system, channel, writer := { writer with core := .archive entries } } =
        (result, { system, channel := apply told channel
                   writer := { changed with core := .archive (entries ++ added) } })

/-- Whether an entry of an archive is made of a file. -/
def Packs (encoding : String) (file : PlannedFile) (entry : String × List UInt8) : Prop :=
  unitPath file.package file.fileName = .ok entry.1 ∧
    ∃ text, file.text = .ok text ∧ encodedFile false encoding [text] = .ok entry.2

/-- A file that has a path which can be used as such below the target and in an archive. -/
def HasPlainPath (target : Path) (file : PlannedFile) : Prop :=
  ∃ path, unitPath file.package file.fileName = .ok path ∧
    (target.join (Path.parse path)).isUnusable = false ∧ Text.before (Char.ofNat 0) path = path

/-- A file is announced in the same way wherever it goes. -/
theorem exists_run_announce {package : Json} {fileName : String}
    (hasPath : unitPath package fileName = .ok path) (isBare : IsBare encoding writer) :
    ∃ changed told, IsBare encoding changed ∧ IsAnnouncement told ∧ ∀ system channel core,
      (announce package fileName).run { system, channel, writer := { writer with core } } =
        (.ok (), { system, channel := apply told channel, writer := { changed with core } }) := by
  obtain ⟨result, layers, told, isTold, isMuted, failing, runs⟩ :=
    run_announceLayers package fileName writer.layers.zipIdx.reverse writer (fits_zipIdx writer)
  obtain rfl : result = .ok () := by
    cases result with
    | ok => rfl
    | error fault =>
        rw [hasPath] at failing
        cases failing fault rfl
  refine ⟨{ writer with layers }, told, ?_, isTold, fun system channel core =>
    runs system channel core⟩
  have sameHeaders : layers.filter Layer.isHeader = writer.layers.filter Layer.isHeader :=
    congrArg Writer.layers isMuted
  exact ⟨isBare.isOpen, sameHeaders.trans isBare.noHeaders, isBare.encoding_eq⟩

theorem run_openDestination_archive {desk : Desk} {entries : List (String × List UInt8)}
    (isArchive : desk.writer.core = .archive entries) (isOpen : desk.writer.closings = 0)
    {package : Json} {fileName : String} (hasPath : unitPath package fileName = .ok path)
    (noNull : Text.before (Char.ofNat 0) path = path) :
    (openDestination package fileName).run desk = (.ok (.entry path), desk) := by
  unfold openDestination
  rw [hasPath, show (ofExcept (.ok path) : Writing String) = pure path from rfl, pure_bind,
    run_get_bind]
  dsimp only
  rw [isArchive]
  dsimp only
  rw [isOpen, if_neg (Nat.lt_irrefl 0), noNull]
  rfl

/-- A file is written into an archive in step with a directory. -/
theorem inStep_writePlanned (isPlain : HasPlainPath target file) :
    InStep target readOnly encoding (writePlanned file) fun added =>
      ∃ entry, added = [entry] ∧ Packs encoding file entry := by
  intro writer isBare
  obtain ⟨path, hasPath, usable, noNull⟩ := isPlain
  cases hasText : file.text with
  | error fault =>
      exact ⟨.error fault, writer, [], [], isBare, isAnnouncement_nil, nofun,
        fun system channel => Or.inr ⟨system, run_writePlanned_of_noText hasText _⟩,
        fun system channel entries => by
          rw [List.append_nil]
          exact run_writePlanned_of_noText hasText _⟩
  | ok text =>
      obtain ⟨changed, told, isBareThen, isTold, announces⟩ := exists_run_announce hasPath isBare
      have samePieces (core : Core) := isBareThen.headerPieces_eq_nil core file.fileName
      obtain rfl := isBareThen.encoding_eq
      refine ⟨(encodedFile false changed.encoding [text]).map fun _ => (), changed, told,
        [(path, (portion (.entry path) changed.encoding [] text).bytes)], isBareThen, isTold,
        ?_, ?_, ?_⟩
      · intro isOk
        refine ⟨_, rfl, hasPath, text, hasText, ?_⟩
        cases isEncoded : encodedFile false changed.encoding [text] with
        | error fault =>
            rw [isEncoded] at isOk
            cases isOk
        | ok bytes =>
            rw [(result_of_portion (.entry path) changed.encoding [] text).2 bytes isEncoded]
      · intro system channel outcome
        have opens : (openDestination file.package file.fileName).run
            { system, channel := apply told channel
              writer := { changed with core := .directory target readOnly } } = _ :=
          run_openDestination rfl file.package file.fileName
        rw [hasPath] at opens
        have isOutcome : outcome = _ := run_writePlanned hasText (announces system channel _) opens
        dsimp only at isOutcome
        rw [samePieces] at isOutcome
        rw [isOutcome, ← result_of_bare_portion (.path (target.join (Path.parse path)) readOnly)]
        exact isRefused_or_run_closePortion_path rfl usable _
      · intro system channel entries
        have opens : (openDestination file.package file.fileName).run
            { system, channel := apply told channel
              writer := { changed with core := .archive entries } } = _ :=
          run_openDestination_archive rfl isBareThen.isOpen hasPath noNull
        rw [run_writePlanned hasText (announces system channel _) opens]
        dsimp only
        rw [samePieces, run_closePortion_entry rfl path
          fun _ _ => ne_unencodable_of_abandoned, result_of_bare_portion]

/-- What is done one after the other is done in step. -/
theorem InStep.bind {first next : Writing Unit}
    {packs packsNext : List (String × List UInt8) → Prop}
    (inStep : InStep target readOnly encoding first packs)
    (inStepNext : InStep target readOnly encoding next packsNext) :
    InStep target readOnly encoding (first >>= fun _ => next) fun added =>
      ∃ front rest, added = front ++ rest ∧ packs front ∧ packsNext rest := by
  intro writer isBare
  obtain ⟨result, changed, told, added, isBareThen, isTold, packed, there, here⟩ :=
    inStep writer isBare
  cases result with
  | error fault =>
      refine ⟨.error fault, changed, told, added, isBareThen, isTold, nofun,
        fun system channel => ?_, fun system channel entries => ?_⟩
      · rcases there system channel with isRefused | ⟨later, ran⟩
        · exact Or.inl isRefused.bind
        · exact Or.inr ⟨later, by rw [run_bind, ran]⟩
      · rw [run_bind, here]
  | ok =>
      obtain ⟨result, last, further, more, isBareLast, isFurther, packedNext, thereNext,
        hereNext⟩ := inStepNext changed isBareThen
      refine ⟨result, last, told ++ further, added ++ more, isBareLast,
        isAnnouncement_append isTold isFurther,
        fun isOk => ⟨added, more, rfl, packed rfl, packedNext isOk⟩,
        fun system channel => ?_, fun system channel entries => ?_⟩
      · rcases there system channel with isRefused | ⟨later, ran⟩
        · exact Or.inl isRefused.bind
        · rw [run_bind, ran, apply_append]
          exact thereNext later _
      · rw [run_bind, here, apply_append, ← List.append_assoc]
        exact hereNext system _ _

theorem inStep_forM (arePlain : ∀ file ∈ files, HasPlainPath target file) :
    InStep target readOnly encoding (files.forM writePlanned)
      (List.Forall₂ (Packs encoding) files) := by
  induction files with
  | nil =>
      refine fun writer isBare => ⟨.ok (), writer, [], [], isBare, isAnnouncement_nil,
        fun _ => .nil, fun system channel => Or.inr ⟨system, rfl⟩, fun system channel entries => ?_⟩
      rw [List.append_nil]
      rfl
  | cons file rest ih =>
      obtain ⟨isPlain, restPlain⟩ := List.forall_mem_cons.mp arePlain
      have both : InStep target readOnly encoding ((file :: rest).forM writePlanned) _ :=
        (inStep_writePlanned isPlain).bind (ih restPlain)
      intro writer isBare
      obtain ⟨result, changed, told, added, isBareThen, isTold, packs, there, here⟩ :=
        both writer isBare
      refine ⟨result, changed, told, added, isBareThen, isTold, fun isOk => ?_, there, here⟩
      obtain ⟨_, more, rfl, ⟨entry, rfl, isFirst⟩, areOthers⟩ := packs isOk
      exact .cons isFirst areOthers

/-- Files are delivered into an archive in step with a directory. -/
theorem inStep_deliver (arePlain : ∀ file ∈ files, HasPlainPath target file)
    (isBare : IsBare encoding writer) : ∃ result told added,
    IsAnnouncement told ∧ (result = .ok () → List.Forall₂ (Packs encoding) files added) ∧
    (∀ system channel,
      let outcome := (deliver files).run
        { system, channel, writer := { writer with core := .directory target readOnly } }
      IsRefused outcome.1 ∨ outcome.1 = result ∧ outcome.2.channel = apply told channel) ∧
    ∀ system channel, ∃ after, (deliver files).run
        { system, channel, writer := { writer with core := .archive [] } } = (result, after) ∧
      after.system = system ∧ after.channel = apply told channel ∧
      after.writer.core = .archive added := by
  obtain ⟨result, changed, told, added, -, isTold, packs, there, here⟩ :=
    @inStep_forM target readOnly files encoding arePlain writer isBare
  refine ⟨result, told, added, isTold, packs, fun system channel => ?_, fun system channel => ?_⟩
  · dsimp only
    rw [run_deliver]
    refine (there system channel).imp id fun ⟨later, ran⟩ => ?_
    rw [ran]
    exact ⟨rfl, rfl⟩
  · rw [run_deliver, here]
    exact ⟨_, rfl, rfl, rfl, rfl⟩

end Writing

end Typeloom
