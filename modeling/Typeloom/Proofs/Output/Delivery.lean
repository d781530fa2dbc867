import Typeloom.Proofs.Files.Effects
import Typeloom.Proofs.Output.Announcements
import Typeloom.Proofs.Output.Contents

/-!
# Deliveries

Files are written one after the other.  Each of them is closed with as much of it as can be
encoded.  In a directory a file is put as a whole when it is closed: it is whole then, unless it
cannot be encoded, and in that case the delivery ends with it.
-/

namespace Typeloom

namespace Writing

variable {α : Type} {writer : Writer} {target : Path} {readOnly : Bool} {file : PlannedFile}
  {files : List PlannedFile} {system later : FileSystem} {fault : Fault} {path text : String}
  {result : Except Fault Unit}

/-! ## Writing one file -/

/-- Close a file that has got so far. -/
def closePortion (destination : Destination) : Portion → Writing Unit
  | .abandoned bytes fault => do
      abandon destination bytes
      throw (← openingFault fault)
  | .finished bytes complete => do
      commit destination bytes
      if complete then return
      throw .unencodable

def Portion.bytes : Portion → List UInt8
  | .abandoned bytes _ => bytes
  | .finished bytes _ => bytes

/-- How writing a file ends that got so far, by what comes of putting it. -/
def Portion.ending : Portion → Except Fault Unit → Except Fault Unit
  | .abandoned _ fault, _ => .error fault
  | .finished _ _, .error refusal => .error refusal
  | .finished _ complete, .ok _ => if complete then .ok () else .error .unencodable

theorem Portion.exists_ending_of_refused (portion : Portion) (refusal : Fault) :
    ∃ fault, portion.ending (.error refusal) = .error fault := by
  cases portion <;> exact ⟨_, rfl⟩

theorem run_writePlanned_of_noText (hasNone : file.text = .error fault) (desk : Desk) :
    (writePlanned file).run desk = (.error fault, desk) := by
  unfold writePlanned
  rw [hasNone]
  rfl

theorem exists_run_abandon (destination : Destination) (bytes : List UInt8) (desk : Desk) :
    ∃ after, (abandon destination bytes).run desk = (.ok (), after) := by
  unfold abandon
  rw [run_tryCatch]
  rcases (commit destination bytes).run desk with ⟨fault | -, after⟩
  · exact ⟨after, rfl⟩
  · exact ⟨after, rfl⟩

theorem exists_run_openingFault (fault : Fault) (desk : Desk) :
    ∃ thrown, (openingFault fault).run desk = (.ok thrown, desk) := by
  unfold openingFault
  rw [run_get_bind]
  split
  · exact ⟨_, rfl⟩
  · exact ⟨_, rfl⟩

/-- A file that cannot be opened is closed again. -/
theorem run_of_unopened {opening : Writing OpenSource} {next : OpenSource → Writing Unit}
    {desk opened : Desk} {destination : Destination} {bytes : List UInt8} {fault : Fault}
    (fails : opening.run desk =
      (abandon destination bytes >>= fun _ => (throw fault : Writing OpenSource)).run opened) :
    (tryCatch opening (fun fault => do throw (← openingFault fault)) >>= next).run desk =
      (closePortion destination (.abandoned bytes fault)).run opened := by
  obtain ⟨after, closes⟩ := exists_run_abandon destination bytes opened
  obtain ⟨thrown, isThrown⟩ := exists_run_openingFault fault after
  have throws : (abandon destination bytes >>= fun _ => (throw fault : Writing OpenSource)).run
      opened = (.error fault, after) := by
    rw [run_bind, closes]
    rfl
  rw [run_bind, run_tryCatch, fails, throws, closePortion, run_bind, closes]
  dsimp only
  rw [run_bind, run_bind, isThrown]
  rfl

theorem run_openSource {package : Json} {fileName : String} {desk opened : Desk}
    {destination : Destination}
    (announces : (announce package fileName).run desk = (.ok (), opened))
    (opens : (openDestination package fileName).run opened = (.ok destination, opened)) :
    (openSource package fileName).run desk =
      match charsetNamed opened.writer.encoding with
      | .error fault =>
          (abandon destination [] >>= fun _ => (throw fault : Writing OpenSource)).run opened
      | .ok charset =>
          match OpenSource.writeAll { destination, charset }
            (headerPieces opened.writer fileName) with
          | (source, true) => (.ok source, opened)
          | (source, false) =>
              (abandon destination source.bytes >>= fun _ =>
                (throw .unencodable : Writing OpenSource)).run opened := by
  rw [openSource, run_bind, announces]
  dsimp only
  rw [run_bind, opens]
  dsimp only
  rw [run_get_bind]
  cases charsetNamed opened.writer.encoding with
  | error fault => rfl
  | ok charset =>
      dsimp only
      rcases OpenSource.writeAll { destination, charset } (headerPieces opened.writer fileName) with
        ⟨source, - | -⟩ <;> rfl

/-- A file with a text that can be opened is closed with what could be written of it. -/
theorem run_writePlanned {desk opened : Desk} {destination : Destination}
    (hasText : file.text = .ok text)
    (announces : (announce file.package file.fileName).run desk = (.ok (), opened))
    (opens : (openDestination file.package file.fileName).run opened = (.ok destination, opened)) :
    (writePlanned file).run desk =
      (closePortion destination (portion destination opened.writer.encoding
        (headerPieces opened.writer file.fileName) text)).run opened := by
  have opening := run_openSource announces opens
  unfold writePlanned portion
  rw [hasText, show (ofExcept (.ok text) : Writing String) = pure text from rfl, pure_bind]
  cases isCharset : charsetNamed opened.writer.encoding with
  | error fault =>
      rw [isCharset] at opening
      exact run_of_unopened opening
  | ok charset =>
      rw [isCharset] at opening
      have goesTo := OpenSource.writeAll_destination { destination, charset }
        (headerPieces opened.writer file.fileName)
      dsimp only at opening ⊢
      rcases wrote : OpenSource.writeAll { destination, charset }
        (headerPieces opened.writer file.fileName) with ⟨source, - | -⟩
      · rw [wrote] at opening
        exact run_of_unopened opening
      · rw [wrote] at opening goesTo
        rw [run_bind, run_tryCatch, opening]
        dsimp only at goesTo ⊢
        rw [closePortion]
        have closesTo := OpenSource.writeAll_destination source [text]
        rw [finishSource]
        dsimp only
        rw [closesTo, goesTo]

/-! ## Files in a directory -/

/-- How a file is written into a directory, and what becomes of the file system. -/
inductive Filed (target : Path) (readOnly : Bool) (encoding : String) (headers : List String)
    (file : PlannedFile) (system : FileSystem) : Except Fault Unit → FileSystem → Prop where
  /-- The file has no text or no path, or the system refuses to put it. -/
  | missing {fault : Fault} {later : FileSystem} (files_eq : later.files = system.files)
      (persists : system.Persists later) :
      Filed target readOnly encoding headers file system (.error fault) later
  | whole {path text : String} {bytes : List UInt8} {later : FileSystem}
      (hasPath : unitPath file.package file.fileName = .ok path) (hasText : file.text = .ok text)
      (isWhole : encodedFile true encoding (headers ++ [text]) = .ok bytes)
      (puts : Filing.PutsFile (target.join (Path.parse path)) { content := .bytes bytes, readOnly }
        system (.ok (), later)) :
      Filed target readOnly encoding headers file system (.ok ()) later
  | cut {path text : String} {bytes : List UInt8} {fault : Fault} {later : FileSystem}
      (hasPath : unitPath file.package file.fileName = .ok path) (hasText : file.text = .ok text)
      (notWhole : encodedFile true encoding (headers ++ [text]) = .error fault)
      (isStart : IsStart true encoding headers bytes)
      (puts : Filing.PutsFile (target.join (Path.parse path)) { content := .bytes bytes, readOnly }
        system (.ok (), later)) :
      Filed target readOnly encoding headers file system (.error fault) later

theorem run_openDestination {desk : Desk}
    (isDirectory : desk.writer.core = .directory target readOnly) (package : Json)
    (fileName : String) :
    (openDestination package fileName).run desk =
      match unitPath package fileName with
      | .ok path => (.ok (.path (target.join (Path.parse path)) readOnly), desk)
      | .error fault => (.error fault, desk) := by
  unfold openDestination
  cases unitPath package fileName with
  | error fault => rfl
  | ok path =>
      rw [show (ofExcept (.ok path) : Writing String) = pure path from rfl, pure_bind, run_get_bind]
      dsimp only
      rw [isDirectory]
      rfl

theorem run_commit (path : Path) (bytes : List UInt8) (desk : Desk) :
    (commit (.path path readOnly) bytes).run desk =
      (((Filing.replaceFile path bytes readOnly).run desk.system).1,
        { desk with system := ((Filing.replaceFile path bytes readOnly).run desk.system).2 }) :=
  run_filing (Filing.replaceFile path bytes readOnly) desk

theorem run_announce_of_muted {desk : Desk} (isMuted : desk.writer.muted = desk.writer)
    (package : Json) (fileName : String) :
    (announce package fileName).run desk = (.ok (), desk) := by
  have announces : (announce package fileName).run { desk with writer := desk.writer.muted } = _ :=
    run_announce_muted desk.system desk.channel desk.writer
  rwa [isMuted] at announces

theorem run_openingFault {desk : Desk}
    (isDirectory : desk.writer.core = .directory target readOnly) (fault : Fault) :
    (openingFault fault).run desk = (.ok fault, desk) := by
  unfold openingFault
  rw [run_get_bind, isDirectory]
  rfl

/-- Closing a file in a directory puts what there is of it. -/
theorem run_closePortion_path {desk : Desk}
    (isDirectory : desk.writer.core = .directory target readOnly) (destination : Path)
    (portion : Portion) :
    (closePortion (.path destination readOnly) portion).run desk =
      match (Filing.replaceFile destination portion.bytes readOnly).run desk.system with
      | (put, later) => (portion.ending put, { desk with system := later }) := by
  cases portion with
  | abandoned bytes fault =>
      have throws (after : FileSystem) :
          (openingFault fault >>= fun thrown => (throw thrown : Writing Unit)).run
            { desk with system := after } = (.error fault, { desk with system := after }) := by
        have same : (openingFault fault).run { desk with system := after } = (.ok fault, _) :=
          run_openingFault (by exact isDirectory) fault
        rw [run_bind, same]
        rfl
      rw [closePortion, abandon, run_bind, run_tryCatch, run_commit, Portion.bytes]
      rcases (Filing.replaceFile destination bytes readOnly).run desk.system with
        ⟨refusal | ⟨⟩, later⟩
      · exact throws later
      · exact throws later
  | finished bytes complete =>
      rw [closePortion, run_bind, run_commit, Portion.bytes]
      rcases (Filing.replaceFile destination bytes readOnly).run desk.system with
        ⟨refusal | ⟨⟩, later⟩
      · rfl
      · cases complete <;> rfl

/-- What becomes of a file when it is closed in a directory. -/
theorem filed_closePortion {desk : Desk}
    (isDirectory : desk.writer.core = .directory target readOnly)
    (hasPath : unitPath file.package file.fileName = .ok path) (hasText : file.text = .ok text)
    (headers : List String) :
    ∃ result later,
      (closePortion (.path (target.join (Path.parse path)) readOnly)
        (portion (.path (target.join (Path.parse path)) readOnly) desk.writer.encoding headers
          text)).run desk = (result, { desk with system := later }) ∧
      Filed target readOnly desk.writer.encoding headers file desk.system result later := by
  generalize isPortion : portion _ desk.writer.encoding headers text = closed
  have puts := Filing.putsFile_replaceFile (target.join (Path.parse path)) closed.bytes readOnly
    desk.system
  rw [run_closePortion_path isDirectory]
  -- A refusal leaves nothing of the file, however far it got.
  rcases replaced : (Filing.replaceFile (target.join (Path.parse path)) closed.bytes readOnly).run
    desk.system with ⟨refusal | ⟨⟩, later⟩
  all_goals
    rw [replaced] at puts
    dsimp only
  · obtain ⟨fault, isError⟩ := closed.exists_ending_of_refused refusal
    rw [isError]
    refine ⟨_, later, rfl, ?_⟩
    cases puts with
    | refused files_eq persists => exact .missing files_eq persists
  · refine ⟨_, later, rfl, ?_⟩
    rcases portion_cases (.path (target.join (Path.parse path)) readOnly) desk.writer.encoding
      headers text with
      ⟨bytes, isWhole, isFinished⟩ | ⟨bytes, fault, notWhole, isStart, isCut | ⟨rfl, isCut⟩⟩
    · obtain rfl := isPortion.symm.trans isFinished
      exact .whole hasPath hasText isWhole puts
    · obtain rfl := isPortion.symm.trans isCut
      exact .cut hasPath hasText notWhole isStart puts
    · obtain rfl := isPortion.symm.trans isCut
      exact .cut hasPath hasText notWhole isStart puts

/-- What becomes of a file when it is written into a directory by a writer that announces
nothing. -/
theorem filed_writePlanned {desk : Desk} (isMuted : desk.writer.muted = desk.writer)
    (isDirectory : desk.writer.core = .directory target readOnly) (file : PlannedFile) :
    ∃ result later, (writePlanned file).run desk = (result, { desk with system := later }) ∧
      Filed target readOnly desk.writer.encoding (headerPieces desk.writer file.fileName) file
        desk.system result later := by
  have announces := run_announce_of_muted isMuted file.package file.fileName
  have opens := run_openDestination isDirectory file.package file.fileName
  cases hasText : file.text with
  | error fault =>
      exact ⟨_, _, run_writePlanned_of_noText hasText desk, .missing rfl (.refl _)⟩
  | ok text =>
      cases hasPath : unitPath file.package file.fileName with
      | error fault =>
          refine ⟨.error fault, desk.system, ?_, .missing rfl (.refl _)⟩
          have fails : (openSource file.package file.fileName).run desk = (.error fault, desk) := by
            rw [openSource, run_bind, announces]
            dsimp only
            rw [run_bind, opens, hasPath]
          unfold writePlanned
          rw [hasText, show (ofExcept (.ok text) : Writing String) = pure text from rfl, pure_bind,
            run_bind, run_tryCatch, fails]
          dsimp only
          rw [run_bind, run_openingFault isDirectory]
          rfl
      | ok path =>
          rw [hasPath] at opens
          rw [run_writePlanned hasText announces opens]
          exact filed_closePortion isDirectory hasPath hasText _

/-- How files are written into a directory one after the other. -/
inductive Delivered (target : Path) (readOnly : Bool) (encoding : String)
    (headers : String → List String) :
    List PlannedFile → FileSystem → Except Fault Unit → FileSystem → Prop where
  | done (system : FileSystem) :
      Delivered target readOnly encoding headers [] system (.ok ()) system
  | next {file : PlannedFile} {rest : List PlannedFile} {system between later : FileSystem}
      {result : Except Fault Unit}
      (first : Filed target readOnly encoding (headers file.fileName) file system (.ok ()) between)
      (others : Delivered target readOnly encoding headers rest between result later) :
      Delivered target readOnly encoding headers (file :: rest) system result later
  | stopped {file : PlannedFile} {rest : List PlannedFile} {system later : FileSystem}
      {fault : Fault}
      (last : Filed target readOnly encoding (headers file.fileName) file system (.error fault)
        later) :
      Delivered target readOnly encoding headers (file :: rest) system (.error fault) later

theorem delivered_forM {desk : Desk} (isMuted : desk.writer.muted = desk.writer)
    (isDirectory : desk.writer.core = .directory target readOnly) (files : List PlannedFile) :
    ∃ result later, (files.forM writePlanned).run desk = (result, { desk with system := later }) ∧
      Delivered target readOnly desk.writer.encoding (headerPieces desk.writer) files desk.system
        result later := by
  induction files generalizing desk with
  | nil => exact ⟨.ok (), desk.system, rfl, .done _⟩
  | cons file rest ih =>
      obtain ⟨result, between, runs, filed⟩ := filed_writePlanned isMuted isDirectory file
      rw [List.forM, run_bind, runs]
      cases result with
      | error fault => exact ⟨_, _, rfl, .stopped filed⟩
      | ok =>
          obtain ⟨result, later, goesOn, delivered⟩ :=
            @ih { desk with system := between } isMuted isDirectory
          exact ⟨result, later, goesOn, .next filed delivered⟩

/-- A delivery ends as writing its files does, and the writer is closed once. -/
theorem run_deliver (files : List PlannedFile) (desk : Desk) :
    (deliver files).run desk =
      (((files.forM writePlanned).run desk).1,
        let after := ((files.forM writePlanned).run desk).2
        { after with writer := { after.writer with closings := after.writer.closings + 1 } }) := by
  unfold deliver
  rw [run_bind, run_tryCatch]
  rcases (files.forM writePlanned).run desk with ⟨fault | -, after⟩ <;> rfl

/-- What becomes of the file system when files are delivered into a directory, whatever is
announced. -/
theorem delivered_deliver {desk : Desk}
    (isDirectory : desk.writer.core = .directory target readOnly)
    (files : List PlannedFile) :
    ∃ result after, (deliver files).run desk = (result, after) ∧
      Delivered target readOnly desk.writer.encoding (headerPieces desk.writer) files desk.system
        result after.system := by
  obtain ⟨result, later, changed, told, -, runs⟩ :=
    announces_deliver files desk.system desk.writer
  obtain ⟨result', later', ran, delivered⟩ :=
    @delivered_forM target readOnly { desk with writer := desk.writer.muted }
      desk.writer.muted_muted isDirectory files
  rw [show headerPieces desk.writer.muted = headerPieces desk.writer from
    funext (headerPieces_muted desk.writer)] at delivered
  have runsMuted : (deliver files).run { desk with writer := desk.writer.muted } =
      (result', { desk with
        system := later', writer := { desk.writer.muted with closings := desk.writer.closings + 1 }
        }) := by
    rw [run_deliver, ran]
    rfl
  have sameRun := (runs desk.channel).2.symm.trans runsMuted
  obtain ⟨rfl, sameDesk⟩ := Prod.mk.inj sameRun
  obtain ⟨rfl, -, -⟩ := Desk.mk.inj sameDesk
  exact ⟨result, _, (runs desk.channel).1, delivered⟩

/-! ## What a delivery leaves -/

/-- What there is at a place to which the path of a file leads, after a computation with the given
result. -/
inductive Holds (target : Path) (encoding : String) (headers : List String) (file : PlannedFile)
    (later : FileSystem) (place : List String) {α : Type} : Except Fault α → Prop where
  | whole {path text : String} {bytes : List UInt8} {readOnly : Bool} {result : Except Fault α}
      (hasPath : unitPath file.package file.fileName = .ok path) (hasText : file.text = .ok text)
      (leads : later.locate (target.join (Path.parse path)) = .ok place)
      (isWhole : encodedFile true encoding (headers ++ [text]) = .ok bytes)
      (holds : Table.get? later.files place = some { content := .bytes bytes, readOnly }) :
      Holds target encoding headers file later place result
  /-- The computation has ended with this file, which cannot be encoded. -/
  | cut {path text : String} {bytes : List UInt8} {readOnly : Bool} {fault : Fault}
      (hasPath : unitPath file.package file.fileName = .ok path) (hasText : file.text = .ok text)
      (leads : later.locate (target.join (Path.parse path)) = .ok place)
      (notWhole : encodedFile true encoding (headers ++ [text]) = .error fault)
      (isStart : IsStart true encoding headers bytes)
      (holds : Table.get? later.files place = some { content := .bytes bytes, readOnly }) :
      Holds target encoding headers file later place (.error fault)

variable {headers : String → List String} {between : FileSystem} {place : List String}

theorem Holds.lasts {headers : List String}
    (holds : Holds target encoding headers file between place result)
    (persists : between.Persists later)
    (same : Table.get? later.files place = Table.get? between.files place) :
    Holds target encoding headers file later place result := by
  cases holds with
  | whole hasPath hasText leads isWhole holds =>
      exact .whole hasPath hasText (persists.locate leads) isWhole (same.trans holds)
  | cut hasPath hasText leads notWhole isStart holds =>
      exact .cut hasPath hasText (persists.locate leads) notWhole isStart (same.trans holds)

theorem Holds.exists_path {headers : List String} {result : Except Fault α}
    (holds : Holds target encoding headers file later place result) :
    ∃ path, unitPath file.package file.fileName = .ok path ∧
      later.locate (target.join (Path.parse path)) = .ok place := by
  cases holds with
  | whole hasPath hasText leads isWhole holds => exact ⟨_, hasPath, leads⟩
  | cut hasPath hasText leads notWhole isStart holds => exact ⟨_, hasPath, leads⟩

/-- Writing a file leaves a place as it is, or the file is there. -/
theorem Filed.unchanged_or_holds {headers : List String}
    (filed : Filed target readOnly encoding headers file system result later)
    (place : List String) :
    system.Persists later ∧ (Table.get? later.files place = Table.get? system.files place ∨
      Holds target encoding headers file later place result) := by
  cases filed with
  | missing files_eq persists => exact ⟨persists, Or.inl (by rw [files_eq])⟩
  | whole hasPath hasText isWhole puts =>
      refine ⟨puts.persists, (puts.unchanged_or_put place).imp_right fun ⟨leads, holds⟩ => ?_⟩
      exact .whole hasPath hasText leads isWhole holds
  | cut hasPath hasText notWhole isStart puts =>
      refine ⟨puts.persists, (puts.unchanged_or_put place).imp_right fun ⟨leads, holds⟩ => ?_⟩
      exact .cut hasPath hasText leads notWhole isStart holds

/-- A delivery leaves a place as it is, or one of its files is there. -/
theorem Delivered.unchanged_or_holds
    (delivered : Delivered target readOnly encoding headers files system result later)
    (place : List String) :
    system.Persists later ∧ (Table.get? later.files place = Table.get? system.files place ∨
      ∃ file ∈ files, Holds target encoding (headers file.fileName) file later place result) := by
  induction delivered with
  | done system => exact ⟨.refl system, Or.inl rfl⟩
  | stopped last =>
      obtain ⟨persists, unchanged | holds⟩ := last.unchanged_or_holds place
      · exact ⟨persists, Or.inl unchanged⟩
      · exact ⟨persists, Or.inr ⟨_, List.mem_cons_self, holds⟩⟩
  | next first others ih =>
      obtain ⟨persists, isFirst⟩ := first.unchanged_or_holds place
      obtain ⟨persistsThen, isThen⟩ := ih
      refine ⟨persists.trans persistsThen, ?_⟩
      rcases isThen with unchanged | ⟨file, occurs, holds⟩
      · rcases isFirst with same | holds
        · exact Or.inl (unchanged.trans same)
        · cases holds.lasts persistsThen unchanged with
          | whole hasPath hasText leads isWhole holds =>
              exact Or.inr ⟨_, List.mem_cons_self, .whole hasPath hasText leads isWhole holds⟩
      · exact Or.inr ⟨file, List.mem_cons_of_mem _ occurs, holds⟩

/-- A file that is written without failing is there. -/
theorem Filed.exists_holds {headers : List String}
    (filed : Filed target readOnly encoding headers file system (.ok ()) later) :
    ∃ place, Holds target encoding headers file later place (.ok () : Except Fault Unit) := by
  cases filed with
  | whole hasPath hasText isWhole puts =>
      cases puts with
      | @put place _ leads files_eq persists =>
          have isThere := congrArg (fun files => Table.get? files place) files_eq
          exact ⟨place, .whole hasPath hasText leads isWhole
            (isThere.trans (Table.get?_set_same _ _ _))⟩

/-- After a delivery all files are there if no two of them go to the same place. -/
theorem Delivered.holds (delivered : Delivered target readOnly encoding headers files system
      (.ok ()) later)
    (apart : files.Pairwise fun file other => ∀ path path' place,
      unitPath file.package file.fileName = .ok path →
      unitPath other.package other.fileName = .ok path' →
      later.locate (target.join (Path.parse path)) = .ok place →
      later.locate (target.join (Path.parse path')) ≠ .ok place) :
    ∀ file ∈ files, ∃ place,
      Holds target encoding (headers file.fileName) file later place
        (.ok () : Except Fault Unit) := by
  generalize isOk : (Except.ok () : Except Fault Unit) = result at delivered
  induction delivered with
  | done system => simp
  | stopped last => cases isOk
  | next first others ih =>
      subst isOk
      obtain ⟨apartFromFirst, apart⟩ := List.pairwise_cons.mp apart
      refine List.forall_mem_cons.mpr ⟨?_, ih apart rfl⟩
      obtain ⟨place, holds⟩ := first.exists_holds
      obtain ⟨persists, unchanged | ⟨other, occurs, holdsOther⟩⟩ := others.unchanged_or_holds place
      · exact ⟨place, holds.lasts persists unchanged⟩
      · obtain ⟨path, hasPath, leads⟩ := holds.exists_path
        obtain ⟨path', hasPath', leads'⟩ := holdsOther.exists_path
        exact absurd leads'
          (apartFromFirst other occurs path path' place hasPath hasPath' (persists.locate leads))

end Writing

end Typeloom
