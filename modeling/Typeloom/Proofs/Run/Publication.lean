import Typeloom.Proofs.Output.Announcements
import Typeloom.Run.Program

/-!
# Publications

A publication tells the listener about files, and at its end about an error if the system refuses
to write.  Nothing else that it does depends on the channel, but that a marker tells whether there
were warnings.  Neither does it depend on how much the listener is told.

What there is to publish is settled before anything is changed.  How a run is concluded from there
does not depend on how long the listener would go on listening, and the listener is not asked any
more.
-/

namespace Typeloom

open Reporting Transcript

/-- Options that differ at most in how much the listener is told.  What is recorded of the command
line may be different too where no file has a header. -/
inductive Options.SameUpToVerbosity (options : Options) : Options → Prop where
  | intro (quiet verbose : Bool) (arguments : List String)
      (recorded : options.noHeader = true ∨ arguments = options.arguments) :
      SameUpToVerbosity options { options with quiet, verbose, arguments }

theorem Options.SameUpToVerbosity.refl (options : Options) : options.SameUpToVerbosity options :=
  .intro options.quiet options.verbose options.arguments (Or.inr rfl)

namespace Publishing

variable {α β : Type} {options other : Options}

/-- Two computations do nothing on the channel but announce files, and have the same result and the
same effect otherwise.  Of the channel they see only whether there was a warning. -/
def Agree (left right : Publishing α) : Prop :=
  ∀ system output hadWarning, ∃ result later written told told',
    IsAnnouncement told ∧ IsAnnouncement told' ∧ ∀ channel, channel.hadWarning = hadWarning →
      left.run { channel, system, output } =
        (result, { channel := apply told channel, system := later, output := written }) ∧
      right.run { channel, system, output } =
        (result, { channel := apply told' channel, system := later, output := written })

theorem agree_pure (value : α) : Agree (pure value) (pure value) :=
  fun system output _ => ⟨.ok value, system, output, [], [], isAnnouncement_nil,
    isAnnouncement_nil, fun _ _ => ⟨rfl, rfl⟩⟩

theorem agree_throw (fault : Fault) : Agree (throw fault : Publishing α) (throw fault) :=
  fun system output _ => ⟨.error fault, system, output, [], [], isAnnouncement_nil,
    isAnnouncement_nil, fun _ _ => ⟨rfl, rfl⟩⟩

theorem agree_ofExcept (result : Except Fault α) : Agree (ofExcept result) (ofExcept result) := by
  cases result with
  | error fault => exact agree_throw fault
  | ok value => exact agree_pure value

theorem hadWarning_apply {transcript : Transcript} (isTold : IsAnnouncement transcript)
    (channel : Channel) : (apply transcript channel).hadWarning = channel.hadWarning := by
  induction transcript generalizing channel with
  | nil => rfl
  | cons act rest ih =>
      obtain ⟨⟨path, index, total, rfl⟩, areTold⟩ := List.forall_mem_cons.mp isTold
      exact ih areTold _

theorem Agree.bind {left right : Publishing α} {next next' : α → Publishing β}
    (agree : Agree left right) (agreeNext : ∀ value, Agree (next value) (next' value)) :
    Agree (left >>= next) (right >>= next') := by
  intro system output hadWarning
  obtain ⟨result, between, written, told, told', isTold, isTold', runs⟩ :=
    agree system output hadWarning
  cases result with
  | error fault =>
      refine ⟨.error fault, between, written, told, told', isTold, isTold',
        fun channel same => ?_⟩
      rw [run_bind, run_bind, (runs channel same).1, (runs channel same).2]
      exact ⟨rfl, rfl⟩
  | ok value =>
      obtain ⟨result, later, last, further, further', isFurther, isFurther', goesOn⟩ :=
        agreeNext value between written hadWarning
      refine ⟨result, later, last, told ++ further, told' ++ further',
        isAnnouncement_append isTold isFurther, isAnnouncement_append isTold' isFurther',
        fun channel same => ?_⟩
      rw [run_bind, run_bind, (runs channel same).1, (runs channel same).2, apply_append,
        apply_append]
      exact ⟨(goesOn _ ((hadWarning_apply isTold _).trans same)).1,
        (goesOn _ ((hadWarning_apply isTold' _).trans same)).2⟩

theorem agree_get {next next' : Site → Publishing α}
    (same : ∀ site channel, channel.hadWarning = site.channel.hadWarning →
      next { site with channel } = next site)
    (same' : ∀ site channel, channel.hadWarning = site.channel.hadWarning →
      next' { site with channel } = next' site)
    (agree : ∀ site, Agree (next site) (next' site)) : Agree (get >>= next) (get >>= next') := by
  intro system output hadWarning
  obtain ⟨result, later, written, told, told', isTold, isTold', runs⟩ :=
    agree { channel := { hadWarning }, system, output } system output hadWarning
  refine ⟨result, later, written, told, told', isTold, isTold', fun channel isWarned => ?_⟩
  rw [run_get_bind, run_get_bind]
  rw [← same { channel := { hadWarning }, system, output } channel isWarned,
    ← same' { channel := { hadWarning }, system, output } channel isWarned] at runs
  exact runs channel isWarned

theorem agree_modify {change : Site → Site} (view : FileSystem → StandardOutput → StandardOutput)
    (isView : ∀ site, change site = { site with output := view site.system site.output }) :
    Agree (modify change) (modify change) := by
  refine fun system output _ => ⟨.ok (), system, view system output, [], [], isAnnouncement_nil,
    isAnnouncement_nil, fun channel _ => ?_⟩
  have changes (site : Site) : (modify change : Publishing Unit).run site = (.ok (), change site) :=
    rfl
  rw [changes, isView]
  exact ⟨rfl, rfl⟩

theorem run_filing (action : Filing α) (site : Site) :
    (filing action).run site =
      ((action.run site.system).1, { site with system := (action.run site.system).2 }) := by
  change (ofExcept (action.run site.system).1).run _ = _
  cases (action.run site.system).1 <;> rfl

theorem agree_filing (action : Filing α) : Agree (filing action) (filing action) :=
  fun system output _ => ⟨(action.run system).1, (action.run system).2, output, [], [],
    isAnnouncement_nil, isAnnouncement_nil, fun _ _ => ⟨run_filing action _, run_filing action _⟩⟩

theorem run_showText (text : String) (site : Site) :
    (showText text).run site =
      match site.output.write text with
      | .error error => (.error (.system error), site)
      | .ok output => (.ok (), { site with output }) := by
  change (ofExcept ((site.output.write text).mapError Fault.system) >>= _).run _ = _
  cases site.output.write text <;> rfl

/-- Showing texts changes the output and nothing else. -/
theorem run_showPieces (pieces : List (Except Fault String)) (output : StandardOutput) :
    ∃ result written, ∀ channel system,
      (showPieces pieces).run { channel, system, output } =
        (result, { channel, system, output := written }) := by
  induction pieces generalizing output with
  | nil => exact ⟨.ok (), output, fun _ _ => rfl⟩
  | cons piece rest ih =>
      have peeled (site : Site) : (showPieces (piece :: rest)).run site =
          ((ofExcept piece >>= fun text => showText text) >>= fun _ => showPieces rest).run site :=
        rfl
      cases piece with
      | error fault => exact ⟨.error fault, output, fun _ _ => rfl⟩
      | ok text =>
          have first (site : Site) :
              (ofExcept (.ok text) >>= fun text => showText text).run site =
                (showText text).run site := rfl
          cases isWritten : output.write text with
          | error error =>
              refine ⟨.error (.system error), output, fun channel system => ?_⟩
              rw [peeled, run_bind, first, run_showText, isWritten]
          | ok written =>
              obtain ⟨result, last, shows⟩ := ih written
              refine ⟨result, last, fun channel system => ?_⟩
              rw [peeled, run_bind, first, run_showText, isWritten]
              exact shows channel system

/-! ## Writing code -/

theorem agree_header (options : Options) : Agree (header options) (header options) := by
  have same (site : Site) (channel : Channel) (_ : channel.hadWarning = site.channel.hadWarning) :
      { site with channel }.system = site.system := rfl
  refine agree_get (fun _ _ _ => rfl) (fun _ _ _ => rfl) fun site => ?_
  exact (agree_ofExcept _).bind fun shown => agree_pure _

theorem agree_headerLayers (same : options.SameUpToVerbosity other) :
    Agree (headerLayers options) (headerLayers other) := by
  obtain ⟨quiet, verbose, arguments, recorded⟩ := same
  unfold headerLayers
  rcases recorded with isNoHeader | rfl
  · simp only [isNoHeader]
    exact agree_pure _
  · dsimp only
    split
    · exact agree_pure _
    · exact (agree_header options).bind fun text => agree_pure _

/-- Write files with a writer, and say how that ended and what became of the writer. -/
def deliverWith (files : List PlannedFile) (writer : Writer) :
    Publishing (Except Fault Unit × Core) := do
  let site ← get
  let (result, desk) := (Writing.deliver files).run
    { system := site.system, channel := site.channel, writer : Desk }
  set { site with system := desk.system, channel := desk.channel }
  return (result, desk.writer.core)

theorem deliver_eq (options : Options) (code : GeneratedCode) (core : Core) :
    deliver options code core = headerLayers options >>= fun headers =>
      deliverWith (plannedFiles options code)
        { core, layers := headers ++ progressLayers options code.files.length
          encoding := options.encoding } :=
  rfl

theorem run_deliverWith (files : List PlannedFile) (writer : Writer) (site : Site) :
    (deliverWith files writer).run site =
      match (Writing.deliver files).run
          { system := site.system, channel := site.channel, writer } with
      | (result, desk) => (.ok (result, desk.writer.core),
          { site with system := desk.system, channel := desk.channel }) :=
  rfl

/-- What is written does not depend on what is announced. -/
theorem agree_deliverWith (files : List PlannedFile) {writer writer' : Writer}
    (same : writer.muted = writer'.muted) :
    Agree (deliverWith files writer) (deliverWith files writer') := by
  intro system output hadWarning
  obtain ⟨result, later, changed, told, isTold, runs⟩ :=
    Writing.announces_deliver files system writer
  obtain ⟨result', later', changed', told', isTold', runs'⟩ :=
    Writing.announces_deliver files system writer'
  have sameRun := (runs {}).2
  rw [same, (runs' {}).2] at sameRun
  obtain ⟨rfl, sameDesk⟩ := Prod.mk.inj sameRun
  obtain ⟨rfl, -, sameWriter⟩ := Desk.mk.inj sameDesk
  have sameCore : changed'.muted.core = changed.muted.core := congrArg Writer.core sameWriter
  refine ⟨.ok (result', changed.core), later', output, told, told', isTold, isTold',
    fun channel _ => ?_⟩
  rw [run_deliverWith, run_deliverWith, (runs channel).1, (runs' channel).1]
  refine ⟨rfl, ?_⟩
  dsimp only
  rw [show changed'.core = changed.core from sameCore]

theorem progressLayers_filter (options : Options) (fileCount : Nat) :
    (progressLayers options fileCount).filter Layer.isHeader = [] := by
  unfold progressLayers
  split <;> rfl

theorem agree_deliver (same : options.SameUpToVerbosity other) (code : GeneratedCode)
    (core : Core) : Agree (deliver options code core) (deliver other code core) := by
  rw [deliver_eq, deliver_eq]
  refine (agree_headerLayers same).bind fun headers => ?_
  obtain ⟨quiet, verbose, arguments, recorded⟩ := same
  refine agree_deliverWith (plannedFiles options code) ?_
  simp only [Writer.muted, List.filter_append, progressLayers_filter]

theorem agree_writeDirectory (same : options.SameUpToVerbosity other) (code : GeneratedCode) :
    Agree (writeDirectory options code) (writeDirectory other code) := by
  have delivers (core : Core) := agree_deliver same code core
  obtain ⟨quiet, verbose, arguments, recorded⟩ := same
  exact (delivers _).bind fun _ => agree_ofExcept _

theorem agree_writeArchiveToOutput (same : options.SameUpToVerbosity other)
    (code : GeneratedCode) :
    Agree (writeArchiveToOutput options code) (writeArchiveToOutput other code) := by
  refine agree_get (fun _ _ _ => rfl) (fun _ _ _ => rfl) fun site => ?_
  have writes : Agree
      (deliver options code (.archive []) >>= fun ended => do
        modify fun site =>
          { site with output := { site.output with binary := archiveContent ended.2 } }
        ofExcept ended.1)
      (deliver other code (.archive []) >>= fun ended => do
        modify fun site =>
          { site with output := { site.output with binary := archiveContent ended.2 } }
        ofExcept ended.1) :=
    (agree_deliver same code _).bind fun ended =>
      (agree_modify (fun _ output => { output with binary := archiveContent ended.2 })
        fun _ => rfl).bind fun _ => agree_ofExcept _
  split
  · exact (agree_throw _).bind fun _ => writes
  · exact writes

theorem agree_writeArchiveFile (same : options.SameUpToVerbosity other) (code : GeneratedCode) :
    Agree (writeArchiveFile options code) (writeArchiveFile other code) := by
  have delivers (core : Core) := agree_deliver same code core
  obtain ⟨quiet, verbose, arguments, recorded⟩ := same
  exact (agree_filing _).bind fun _ => (delivers _).bind fun _ => (agree_filing _).bind fun _ =>
    agree_ofExcept _

theorem agree_writeCode (same : options.SameUpToVerbosity other) (code : GeneratedCode) :
    Agree (writeCode options code) (writeCode other code) := by
  have toOutput := agree_writeArchiveToOutput same code
  have toFile := agree_writeArchiveFile same code
  have toDirectory := agree_writeDirectory same code
  obtain ⟨quiet, verbose, arguments, recorded⟩ := same
  unfold writeCode
  cases isMode : options.mode with
  | dryrun => exact agree_pure ()
  | zip =>
      dsimp only
      split
      · exact toOutput
      · exact toFile
  | _ => exact toDirectory

theorem agree_writeMarker (same : options.SameUpToVerbosity other) :
    Agree (writeMarker options) (writeMarker other) := by
  obtain ⟨quiet, verbose, arguments, recorded⟩ := same
  unfold writeMarker
  dsimp only
  split
  · refine agree_get (fun site channel isWarned => ?_) (fun site channel isWarned => ?_)
      fun site => agree_filing _
    · rw [isWarned]
    · rw [isWarned]
  · exact agree_pure ()

/-! ## Publishing -/

/-- A publication reports an error at its end if that makes it fail, and nothing otherwise. -/
def Settles (result : Except Fault Exit) (notices : Transcript) : Prop :=
  notices = [] ∨ result = .ok .failure ∧
    ∃ diagnostic : Diagnostic, diagnostic.severity = .error ∧ notices = [.notify diagnostic]

theorem plain_of_settles {result : Except Fault Exit} {notices : Transcript}
    (settles : Settles result notices) :
    IsPlain notices ∧ (result = .ok .success → errors notices = 0) := by
  rcases settles with rfl | ⟨rfl, diagnostic, -, rfl⟩
  · exact ⟨isPlain_nil, fun _ => rfl⟩
  · exact ⟨by simp [IsPlain, Act.IsPlain], (nomatch ·)⟩

theorem polls_of_settles {result : Except Fault Exit} {notices : Transcript}
    (settles : Settles result notices) : polls notices = 0 := by
  rcases settles with rfl | ⟨-, diagnostic, -, rfl⟩ <;> rfl

/-- What a publication tells the listener, by what is published. -/
structure Publication (product : Product) (system later : FileSystem)
    (result : Except Fault Exit) (told notices : Transcript) : Prop where
  isTold : IsAnnouncement told
  settles : Settles result notices
  /-- Without a product there is nothing to succeed with. -/
  ofNothing : product = .nothing → result = .ok .failure
  /-- Files are written and announced only if there is code. -/
  ofNoCode : (∀ code, product ≠ .code code) → told = [] ∧ later = system

theorem severity_ofCause (cause : Cause) (severity : Severity) (systemId : Option String) :
    (Diagnostic.ofCause cause severity systemId).severity = severity := by
  cases cause <;> rfl

/-- What becomes of a computation when an error of the system is reported, and what is told of
it. -/
def verdict : Except Fault Unit → Except Fault Exit × Transcript
  | .ok () => (.ok .success, [])
  | .error (.system error) => (.ok .failure, [.notify (.ofCause error.cause .error none)])
  | .error fault => (.error fault, [])

theorem settles_verdict (result : Except Fault Unit) :
    Settles (verdict result).1 (verdict result).2 := by
  match result with
  | .ok () => exact Or.inl rfl
  | .error fault =>
      cases fault with
      | system error => exact Or.inr ⟨rfl, _, severity_ofCause _ _ _, rfl⟩
      | _ => exact Or.inl rfl

theorem run_reportingErrors (action : Publishing Unit) (site : Site) :
    (reportingErrors action).run site =
      match action.run site with
      | (result, after) => ((verdict result).1,
          { after with channel := apply (verdict result).2 after.channel }) := by
  unfold reportingErrors
  rw [run_tryCatch, run_bind]
  rcases action.run site with ⟨fault | value, after⟩
  · cases fault with
    | system error =>
        have same := severity_ofCause error.cause .error none
        simp [verdict, apply, Act.apply, same]
        rfl
    | _ => rfl
  · rfl

/-- What is published, and how that ends, does not depend on how much the listener is told. -/
theorem publish_agrees (same : options.SameUpToVerbosity other) (product : Product)
    (system : FileSystem) (output : StandardOutput) (hadWarning : Bool) :
    ∃ result later written told told' notices,
      Publication product system later result told notices ∧
      Publication product system later result told' notices ∧
      ∀ channel, channel.hadWarning = hadWarning →
        (publish options product).run { channel, system, output } = (result,
          { channel := apply (told ++ notices) channel, system := later, output := written }) ∧
        (publish other product).run { channel, system, output } = (result,
          { channel := apply (told' ++ notices) channel, system := later, output := written }) := by
  cases product with
  | nothing =>
      have isNothing : Publication .nothing system system (.ok .failure) [] [] :=
        ⟨isAnnouncement_nil, Or.inl rfl, fun _ => rfl, fun _ => ⟨rfl, rfl⟩⟩
      exact ⟨.ok .failure, system, output, [], [], [], isNothing, isNothing,
        fun _ _ => ⟨rfl, rfl⟩⟩
  | text pieces =>
      obtain ⟨result, written, shows⟩ := run_showPieces pieces output
      have isText : Publication (.text pieces) system system (verdict result).1 []
          (verdict result).2 :=
        ⟨isAnnouncement_nil, settles_verdict result, (nomatch ·), fun _ => ⟨rfl, rfl⟩⟩
      refine ⟨_, system, written, [], [], _, isText, isText, fun channel _ => ?_⟩
      unfold publish
      rw [run_reportingErrors, shows]
      exact ⟨rfl, rfl⟩
  | code code =>
      obtain ⟨result, later, written, told, told', isTold, isTold', runs⟩ :=
        (agree_writeCode same code).bind (fun _ => agree_writeMarker same) system output hadWarning
      have isCode {transcript : Transcript} (isTold : IsAnnouncement transcript) :
          Publication (.code code) system later (verdict result).1 transcript
            (verdict result).2 :=
        ⟨isTold, settles_verdict result, (nomatch ·), fun noCode => absurd rfl (noCode code)⟩
      refine ⟨_, later, written, told, told', _, isCode isTold, isCode isTold',
        fun channel isWarned => ?_⟩
      unfold publish
      rw [run_reportingErrors, run_reportingErrors, (runs channel isWarned).1,
        (runs channel isWarned).2, apply_append, apply_append]
      exact ⟨rfl, rfl⟩

end Publishing

/-! ## The conclusion of a run -/

namespace Program

/-- What becomes of a run once it is settled what there is to publish. -/
def conclude (site : Site) :
    Except Stop (Option (Options × Product)) × Channel → Except Fault Exit × Site
  | (.error .cancelled, channel) => (.ok .failure, { site with channel })
  | (.error (.fault fault), channel) => (.error fault, { site with channel })
  | (.ok none, channel) => (.ok .failure, { site with channel })
  | (.ok (some (options, product)), channel) =>
      (Publishing.publish options product).run { site with channel }

theorem run_eq (arguments : List String) (remote : Table String (List UInt8)) (site : Site) :
    run arguments remote site =
      conclude site ((prepare arguments site.system remote).onChannel site.channel) := by
  unfold run conclude
  dsimp only
  rcases (prepare arguments site.system remote).onChannel site.channel with
    ⟨(- | fault) | - | ⟨options, product⟩, channel⟩ <;> rfl

/-- A run is concluded without asking the listener, and in the same way whatever it was told. -/
theorem exists_conclude (prepared : Except Stop (Option (Options × Product)))
    (system : FileSystem) (output : StandardOutput) (hadWarning : Bool) :
    ∃ result later written transcript, polls transcript = 0 ∧ ∀ first channel,
      channel.hadWarning = hadWarning →
        conclude { channel := first, system, output } (prepared, channel) =
          (result,
            { channel := apply transcript channel, system := later, output := written }) := by
  match prepared with
  | .error .cancelled => exact ⟨.ok .failure, system, output, [], rfl, fun _ _ _ => rfl⟩
  | .error (.fault fault) => exact ⟨.error fault, system, output, [], rfl, fun _ _ _ => rfl⟩
  | .ok none => exact ⟨.ok .failure, system, output, [], rfl, fun _ _ _ => rfl⟩
  | .ok (some (options, product)) =>
      obtain ⟨result, later, written, told, _, notices, publication, -, publishes⟩ :=
        Publishing.publish_agrees (.refl options) product system output hadWarning
      refine ⟨result, later, written, told ++ notices, ?_, fun first channel isWarned =>
        (publishes channel isWarned).1⟩
      rw [polls_append, polls_of_isAnnouncement publication.isTold,
        Publishing.polls_of_settles publication.settles]

end Program

end Typeloom
