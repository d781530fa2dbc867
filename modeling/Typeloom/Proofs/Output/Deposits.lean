import Typeloom.Proofs.Output.Delivery

/-!
# Deposits

A file that is written without a failure is rendered, announced and opened, and it is closed once
with its headers and its text as a whole.
-/

namespace Typeloom

/-- A desk with other files on the system and other ones in the archive. -/
def Desk.holding (system : FileSystem) (core : Core) (desk : Desk) : Desk :=
  { desk with system, writer := { desk.writer with core } }

/-- Where a writer puts the file of a path. -/
def Core.destination : Core → String → Destination
  | .directory target readOnly, path => .path (target.join (Path.parse path)) readOnly
  | .archive _, path => .entry (Text.before (Char.ofNat 0) path)

namespace Writing

variable {α β : Type} {file : PlannedFile} {text : String} {desk opened after : Desk}

/-! ## Computations that only put files -/

/-- A computation has to do with nothing but the files that have been put, and it leaves the places
where a writer puts them as they are. -/
def OnlyPuts (action : Writing α) : Prop :=
  ∀ system core, ∃ result later last, last.destination = core.destination ∧
    ∀ desk : Desk, action.run (desk.holding system core) = (result, desk.holding later last)

theorem onlyPuts_pure (value : α) : OnlyPuts (pure value : Writing α) :=
  fun system core => ⟨.ok value, system, core, rfl, fun _ => rfl⟩

theorem onlyPuts_throw (fault : Fault) : OnlyPuts (throw fault : Writing α) :=
  fun system core => ⟨.error fault, system, core, rfl, fun _ => rfl⟩

theorem OnlyPuts.bind {action : Writing α} {next : α → Writing β} (onlyPuts : OnlyPuts action)
    (onlyPutsNext : ∀ value, OnlyPuts (next value)) : OnlyPuts (action >>= next) := by
  intro system core
  obtain ⟨result, later, last, same, runs⟩ := onlyPuts system core
  cases result with
  | error fault =>
      refine ⟨.error fault, later, last, same, fun desk => ?_⟩
      rw [run_bind, runs]
  | ok value =>
      obtain ⟨result, final, ending, sameNext, goesOn⟩ := onlyPutsNext value later last
      refine ⟨result, final, ending, sameNext.trans same, fun desk => ?_⟩
      rw [run_bind, runs]
      exact goesOn desk

theorem onlyPuts_forM {items : List α} {step : α → Writing PUnit}
    (onlyPuts : ∀ item, OnlyPuts (step item)) : OnlyPuts (items.forM step) := by
  induction items with
  | nil => exact onlyPuts_pure PUnit.unit
  | cons item rest ih => exact (onlyPuts item).bind fun _ => ih

/-- What such a computation does at one desk it does at any other. -/
theorem OnlyPuts.run_holding {action : Writing α} (onlyPuts : OnlyPuts action) {desk : Desk}
    {system later : FileSystem} {core last : Core} {result : Except Fault α}
    (runs : action.run (desk.holding system core) = (result, desk.holding later last))
    (other : Desk) :
    action.run (other.holding system core) = (result, other.holding later last) := by
  obtain ⟨_, _, _, -, same⟩ := onlyPuts system core
  obtain ⟨rfl, isSame⟩ := Prod.mk.inj ((same desk).symm.trans runs)
  obtain ⟨rfl, -, sameWriter⟩ := Desk.mk.inj isSame
  obtain ⟨rfl, -, -, -⟩ := Writer.mk.inj sameWriter
  exact same other

theorem onlyPuts_commit (destination : Destination) (bytes : List UInt8) :
    OnlyPuts (commit destination bytes) := by
  intro system core
  cases destination with
  | path path readOnly =>
      exact ⟨((Filing.replaceFile path bytes readOnly).run system).1,
        ((Filing.replaceFile path bytes readOnly).run system).2, core, rfl,
        fun desk => run_commit path bytes (desk.holding system core)⟩
  | entry name =>
      cases core with
      | directory target readOnly =>
          exact ⟨.ok (), system, .directory target readOnly, rfl, fun desk => rfl⟩
      | archive entries =>
          exact ⟨.ok (), system, .archive (entries ++ [(name, bytes)]), rfl, fun desk => rfl⟩

theorem onlyPuts_abandon (destination : Destination) (bytes : List UInt8) :
    OnlyPuts (abandon destination bytes) := by
  intro system core
  obtain ⟨result, later, last, same, runs⟩ := onlyPuts_commit destination bytes system core
  refine ⟨.ok (), later, last, same, fun desk => ?_⟩
  unfold abandon
  rw [run_tryCatch, runs]
  cases result <;> rfl

theorem onlyPuts_openingFault (fault : Fault) : OnlyPuts (openingFault fault) := by
  intro system core
  have looks (desk : Desk) : (openingFault fault).run (desk.holding system core) =
      (((openingFault fault).run ((default : Desk).holding system core)).1,
        desk.holding system core) := by
    unfold openingFault
    rw [run_get_bind, run_get_bind]
    dsimp only [Desk.holding]
    split <;> rfl
  exact ⟨_, system, core, rfl, looks⟩

theorem onlyPuts_closePortion (destination : Destination) (portion : Portion) :
    OnlyPuts (closePortion destination portion) := by
  cases portion with
  | abandoned bytes fault =>
      refine (onlyPuts_abandon destination bytes).bind fun _ => ?_
      exact (onlyPuts_openingFault fault).bind onlyPuts_throw
  | finished bytes complete =>
      refine (onlyPuts_commit destination bytes).bind fun _ => ?_
      cases complete with
      | false => exact onlyPuts_throw _
      | true => exact onlyPuts_pure ()

/-! ## Files that are written without a failure -/

/-- Opening a file finds out where it goes, and does nothing else. -/
theorem exists_run_openDestination (package : Json) (fileName : String) (desk : Desk) :
    ∃ result, (openDestination package fileName).run desk = (result, desk) := by
  unfold openDestination
  cases unitPath package fileName with
  | error fault => exact ⟨.error fault, rfl⟩
  | ok path =>
      rw [show (ofExcept (.ok path) : Writing String) = pure path from rfl, pure_bind, run_get_bind]
      dsimp only
      cases desk.writer.core with
      | directory target readOnly => exact ⟨.ok _, rfl⟩
      | archive entries =>
          dsimp only
          split
          · exact ⟨.error _, rfl⟩
          · exact ⟨.ok _, rfl⟩

/-- The only part of texts that matters to a file is what they are together. -/
theorem encodedFile_congr {texts others : List String}
    (same : String.join texts = String.join others) (seekable : Bool) (encoding : String) :
    encodedFile seekable encoding texts = encodedFile seekable encoding others := by
  unfold encodedFile
  rw [same]

/-- Bytes are put where a file goes, and they are those of its headers and its text. -/
structure Deposits (file : PlannedFile) (opened after : Desk)
    (deposit : Destination × List UInt8) : Prop where
  opens : (openDestination file.package file.fileName).run opened = (.ok deposit.1, opened)
  isWhole : ∃ text, file.text = .ok text ∧
    encodedFile deposit.1.isSeekable opened.writer.encoding
      (headerPieces opened.writer file.fileName ++ [text]) = .ok deposit.2
  commits : (commit deposit.1 deposit.2).run opened = (.ok (), after)

/-- A file is closed without a failure just if all of it can be encoded and put. -/
theorem run_closePortion_eq_ok_iff {destination : Destination} {encoding : String}
    {headers : List String} :
    (closePortion destination (portion destination encoding headers text)).run opened =
        (.ok (), after) ↔
      ∃ bytes, encodedFile destination.isSeekable encoding (headers ++ [text]) = .ok bytes ∧
        (commit destination bytes).run opened = (.ok (), after) := by
  rcases portion_cases destination encoding headers text with
    ⟨bytes, isWhole, isPortion⟩ | ⟨bytes, fault, notWhole, -, isPortion | ⟨-, isPortion⟩⟩
  · rw [isPortion, isWhole]
    have closes : (closePortion destination (.finished bytes true)).run opened =
        (commit destination bytes).run opened := by
      rw [closePortion, run_bind]
      rcases (commit destination bytes).run opened with ⟨fault | ⟨⟩, closed⟩ <;> rfl
    rw [closes]
    constructor
    · exact fun commits => ⟨bytes, rfl, commits⟩
    · rintro ⟨_, same, commits⟩
      cases same
      exact commits
  all_goals
    rw [isPortion, notWhole]
    refine iff_of_false (fun closes => ?_) (by rintro ⟨_, ⟨⟩, _⟩)
    rw [closePortion, run_bind] at closes
  · obtain ⟨closed, abandons⟩ := exists_run_abandon destination bytes opened
    obtain ⟨thrown, isThrown⟩ := exists_run_openingFault fault closed
    rw [abandons] at closes
    dsimp only at closes
    rw [run_bind, isThrown] at closes
    cases closes
  · split at closes <;> cases closes

/-- A file that cannot be opened is not written. -/
theorem exists_run_writePlanned_of_unopened {fault : Fault} (hasText : file.text = .ok text)
    (fails : (openSource file.package file.fileName).run desk = (.error fault, after)) :
    ∃ thrown, (writePlanned file).run desk = (.error thrown, after) := by
  obtain ⟨thrown, isThrown⟩ := exists_run_openingFault fault after
  refine ⟨thrown, ?_⟩
  unfold writePlanned
  rw [hasText, show (ofExcept (.ok text) : Writing String) = pure text from rfl, pure_bind,
    run_bind, run_tryCatch, fails]
  dsimp only
  rw [run_bind, isThrown]
  rfl

/-- How a file is written without a failure. -/
theorem run_writePlanned_eq_ok_iff :
    (writePlanned file).run desk = (.ok (), after) ↔
      ∃ opened deposit, (announce file.package file.fileName).run desk = (.ok (), opened) ∧
        Deposits file opened after deposit := by
  cases hasText : file.text with
  | error fault =>
      rw [run_writePlanned_of_noText hasText]
      refine iff_of_false (fun runs => by cases runs) ?_
      rintro ⟨opened, deposit, -, deposits⟩
      obtain ⟨text, isText, -⟩ := deposits.isWhole
      cases hasText.symm.trans isText
  | ok text =>
      have refuses {fault : Fault} {failed : Desk}
          (fails : (openSource file.package file.fileName).run desk = (.error fault, failed)) :
          (writePlanned file).run desk ≠ (.ok (), after) := by
        obtain ⟨thrown, isThrown⟩ := exists_run_writePlanned_of_unopened hasText fails
        intro runs
        cases isThrown.symm.trans runs
      rcases announces : (announce file.package file.fileName).run desk with ⟨fault | ⟨⟩, opened⟩
      · have fails : (openSource file.package file.fileName).run desk = (.error fault, opened) := by
          rw [openSource, run_bind, announces]
        exact iff_of_false (refuses fails) (by rintro ⟨_, _, ⟨⟩, _⟩)
      · obtain ⟨result, opens⟩ :=
          exists_run_openDestination file.package file.fileName opened
        cases result with
        | error fault =>
            have fails : (openSource file.package file.fileName).run desk =
                (.error fault, opened) := by
              rw [openSource, run_bind, announces]
              dsimp only
              rw [run_bind, opens]
            refine iff_of_false (refuses fails) ?_
            rintro ⟨_, deposit, ⟨⟩, deposits⟩
            cases opens.symm.trans deposits.opens
        | ok destination =>
            rw [run_writePlanned hasText announces opens, run_closePortion_eq_ok_iff]
            constructor
            · rintro ⟨bytes, isWhole, commits⟩
              exact ⟨opened, (destination, bytes), rfl, opens, ⟨text, hasText, isWhole⟩, commits⟩
            · rintro ⟨_, ⟨other, bytes⟩, ⟨⟩, deposits⟩
              obtain ⟨_, isText, isWhole⟩ := deposits.isWhole
              have commits := deposits.commits
              cases hasText.symm.trans isText
              cases opens.symm.trans deposits.opens
              exact ⟨bytes, isWhole, commits⟩

end Writing

end Typeloom
