import Typeloom.Output.Writer
import Typeloom.Proofs.Failing
import Typeloom.Proofs.Report.Transcript

/-!
# Announcements

A writer tells the listener about the files it writes, and does nothing else on the channel.  What
it writes depends neither on the channel nor on whether the files are announced.
-/

namespace Typeloom

namespace Transcript

/-- The listener is told of files and of nothing else. -/
def IsAnnouncement (transcript : Transcript) : Prop :=
  ∀ act ∈ transcript, ∃ path index total, act = .tell (.generated path index total)

theorem isAnnouncement_nil : IsAnnouncement [] := by
  simp [IsAnnouncement]

theorem isAnnouncement_append {first rest : Transcript} (isFirst : IsAnnouncement first)
    (isRest : IsAnnouncement rest) : IsAnnouncement (first ++ rest) :=
  List.forall_mem_append.mpr ⟨isFirst, isRest⟩

/-- The listener is not asked while it is told of files. -/
theorem polls_of_isAnnouncement {transcript : Transcript} (isTold : IsAnnouncement transcript) :
    polls transcript = 0 := by
  refine List.countP_eq_zero.mpr fun act occurs => ?_
  obtain ⟨path, index, total, rfl⟩ := isTold act occurs
  exact Bool.false_ne_true

end Transcript

def Layer.isHeader : Layer → Bool
  | .header _ => true
  | .progress _ _ => false

/-- A writer that announces nothing, but does everything else. -/
def Writer.muted (writer : Writer) : Writer :=
  { writer with layers := writer.layers.filter Layer.isHeader }

theorem Writer.muted_muted (writer : Writer) : writer.muted.muted = writer.muted := by
  simp [muted]

/-- What is announced of a file does not matter to a muted writer. -/
theorem Writer.muted_replaceLayer {writer : Writer} {index : Nat} {layer : Layer}
    (replaces : (writer.layers[index]?).map Layer.isHeader = some false)
    (noHeader : layer.isHeader = false) :
    (Writing.replaceLayer index layer writer).muted = writer.muted := by
  unfold muted Writing.replaceLayer
  congr 1
  dsimp only
  generalize writer.layers = layers at replaces
  induction layers generalizing index with
  | nil => simp
  | cons first rest ih =>
      cases index with
      | zero => simp_all
      | succ index =>
          rw [List.set_cons_succ, List.filter_cons, List.filter_cons, ih (by simpa using replaces)]

namespace Writing

open Transcript

variable {α β : Type} {package : Json} {fileName : String}

/-- A computation does nothing on the channel but announce files, and has the same result and the
same effect otherwise if it announces nothing. -/
def Announces (action : Writing α) : Prop :=
  ∀ system writer, ∃ result later changed told, IsAnnouncement told ∧ ∀ channel,
    action.run { system, channel, writer } =
      (result, { system := later, channel := apply told channel, writer := changed }) ∧
    action.run { system, channel, writer := writer.muted } =
      (result, { system := later, channel, writer := changed.muted })

theorem announces_pure (value : α) : Announces (pure value) :=
  fun system writer => ⟨.ok value, system, writer, [], isAnnouncement_nil, fun _ => ⟨rfl, rfl⟩⟩

theorem announces_throw (fault : Fault) : Announces (throw fault : Writing α) :=
  fun system writer => ⟨.error fault, system, writer, [], isAnnouncement_nil, fun _ => ⟨rfl, rfl⟩⟩

theorem announces_ofExcept (result : Except Fault α) : Announces (ofExcept result) := by
  cases result with
  | error fault => exact announces_throw fault
  | ok value => exact announces_pure value

theorem Announces.bind {action : Writing α} {next : α → Writing β} (announces : Announces action)
    (announcesNext : ∀ value, Announces (next value)) : Announces (action >>= next) := by
  intro system writer
  obtain ⟨result, between, changed, told, isTold, runs⟩ := announces system writer
  cases result with
  | error fault =>
      refine ⟨.error fault, between, changed, told, isTold, fun channel => ?_⟩
      rw [run_bind, run_bind, (runs channel).1, (runs channel).2]
      exact ⟨rfl, rfl⟩
  | ok value =>
      obtain ⟨result, later, last, further, isFurther, goesOn⟩ :=
        announcesNext value between changed
      refine ⟨result, later, last, told ++ further, isAnnouncement_append isTold isFurther,
        fun channel => ?_⟩
      rw [run_bind, run_bind, (runs channel).1, (runs channel).2, apply_append]
      exact ⟨(goesOn _).1, (goesOn channel).2⟩

theorem Announces.tryCatch {action : Writing α} {handle : Fault → Writing α}
    (announces : Announces action) (announcesHandled : ∀ fault, Announces (handle fault)) :
    Announces (tryCatch action handle) := by
  intro system writer
  obtain ⟨result, between, changed, told, isTold, runs⟩ := announces system writer
  cases result with
  | ok value =>
      refine ⟨.ok value, between, changed, told, isTold, fun channel => ?_⟩
      rw [run_tryCatch, run_tryCatch, (runs channel).1, (runs channel).2]
      exact ⟨rfl, rfl⟩
  | error fault =>
      obtain ⟨result, later, last, further, isFurther, goesOn⟩ :=
        announcesHandled fault between changed
      refine ⟨result, later, last, told ++ further, isAnnouncement_append isTold isFurther,
        fun channel => ?_⟩
      rw [run_tryCatch, run_tryCatch, (runs channel).1, (runs channel).2, apply_append]
      exact ⟨(goesOn _).1, (goesOn channel).2⟩

theorem announces_forM {items : List α} {step : α → Writing PUnit}
    (announces : ∀ item, Announces (step item)) : Announces (items.forM step) := by
  induction items with
  | nil => exact announces_pure PUnit.unit
  | cons item rest ih => exact (announces item).bind fun _ => ih

theorem announces_get {next : Desk → Writing α}
    (same : ∀ system channel writer,
      next { system, channel, writer } = next { system, channel := {}, writer := writer.muted })
    (announces : ∀ desk, Announces (next desk)) : Announces (get >>= next) := by
  intro system writer
  obtain ⟨result, later, changed, told, isTold, runs⟩ :=
    announces { system, channel := {}, writer := writer.muted } system writer
  refine ⟨result, later, changed, told, isTold, fun channel => ?_⟩
  rw [run_get_bind, run_get_bind, same system channel writer, same system channel writer.muted,
    Writer.muted_muted]
  exact runs channel

theorem run_filing (action : Filing α) (desk : Desk) :
    (filing action).run desk =
      ((action.run desk.system).1, { desk with system := (action.run desk.system).2 }) := by
  change (ofExcept (action.run desk.system).1).run _ = _
  cases (action.run desk.system).1 <;> rfl

theorem announces_filing (action : Filing α) : Announces (filing action) :=
  fun system writer => ⟨(action.run system).1, (action.run system).2, writer, [],
    isAnnouncement_nil, fun _ => ⟨run_filing action _, run_filing action _⟩⟩

theorem announces_changeWriter {change : Writer → Writer}
    (keeps : ∀ writer, change writer.muted = (change writer).muted) :
    Announces (changeWriter change) := by
  refine fun system writer => ⟨.ok (), system, change writer, [], isAnnouncement_nil,
    fun channel => ⟨rfl, ?_⟩⟩
  rw [← keeps]
  rfl

/-! ## The steps of a writer -/

/-- The layers of a writer at which a file is announced. -/
def Fits (writer : Writer) (place : Layer × Nat) : Prop :=
  (writer.layers[place.2]?).map Layer.isHeader = some place.1.isHeader

theorem fits_replaceLayer {writer : Writer} {place : Layer × Nat} {index : Nat} {layer : Layer}
    (fits : Fits writer place)
    (replaces : (writer.layers[index]?).map Layer.isHeader = some layer.isHeader) :
    Fits (replaceLayer index layer writer) place := by
  unfold Fits replaceLayer at *
  dsimp only
  rw [List.getElem?_set]
  split
  · rename_i same
    subst same
    rw [fits] at replaces
    split
    · exact replaces.symm
    · rename_i outside
      rw [List.getElem?_eq_none (Nat.le_of_not_lt outside)] at fits
      cases fits
  · exact fits

theorem run_announceLayer {total announced index : Nat} (desk : Desk) :
    (announceLayer package fileName (.progress total announced, index)).run desk =
      match unitPath package fileName with
      | .error fault => (.error fault,
          { desk with writer := replaceLayer index (.progress total (announced + 1)) desk.writer })
      | .ok path => (.ok (), { desk with
          channel := desk.channel.tell (.generated path (announced + 1) total)
          writer := replaceLayer index (.progress total (announced + 1)) desk.writer }) := by
  change (ofExcept (unitPath package fileName) >>= _).run _ = _
  cases unitPath package fileName <;> rfl

/-- Announcing a file changes nothing but what is announced in the layers, and fails only if the
file has no path.  Where the files go does not matter. -/
theorem run_announceLayers (package : Json) (fileName : String) (places : List (Layer × Nat))
    (writer : Writer) (fit : ∀ place ∈ places, Fits writer place) :
    ∃ result layers told, IsAnnouncement told ∧ { writer with layers }.muted = writer.muted ∧
      (∀ fault, result = .error fault → unitPath package fileName = .error fault) ∧
      ∀ system channel core,
        (places.forM (announceLayer package fileName)).run
            { system, channel, writer := { writer with core } } =
          (result, { system, channel := apply told channel
                     writer := { writer with core, layers } }) := by
  induction places generalizing writer with
  | nil =>
      refine ⟨.ok (), writer.layers, [], isAnnouncement_nil, rfl, ?_, fun _ _ _ => rfl⟩
      exact fun _ isError => nomatch isError
  | cons place rest ih =>
      obtain ⟨layer, index⟩ := place
      obtain ⟨fits, fitRest⟩ := List.forall_mem_cons.mp fit
      cases layer with
      | header text => exact ih writer fitRest
      | progress total announced =>
          have sameMuted :
              (replaceLayer index (.progress total (announced + 1)) writer).muted =
                writer.muted :=
            Writer.muted_replaceLayer fits rfl
          cases isPath : unitPath package fileName with
          | error fault =>
              refine ⟨.error fault, _, [], isAnnouncement_nil, sameMuted, ?_,
                fun system channel core => ?_⟩
              · exact fun _ isError => congrArg Except.error (Except.error.inj isError)
              · rw [List.forM, run_bind, run_announceLayer, isPath]
                rfl
          | ok path =>
              obtain ⟨result, layers, told, isTold, isMuted, failing, runs⟩ :=
                ih (replaceLayer index (.progress total (announced + 1)) writer)
                  fun place occurs => fits_replaceLayer (fitRest place occurs) fits
              refine ⟨result, layers, .tell (.generated path (announced + 1) total) :: told, ?_,
                isMuted.trans sameMuted, fun fault isError => ?_, fun system channel core => ?_⟩
              · exact List.forall_mem_cons.mpr ⟨⟨path, announced + 1, total, rfl⟩, isTold⟩
              · rw [← isPath]
                exact failing fault isError
              · rw [List.forM, run_bind, run_announceLayer, isPath]
                exact runs system _ core

/-- The layers of a writer are at their places. -/
theorem fits_zipIdx (writer : Writer) :
    ∀ place ∈ writer.layers.zipIdx.reverse, Fits writer place := by
  rintro ⟨layer, index⟩ occurs
  have isThere := List.mem_zipIdx_iff_getElem?.mp (List.mem_reverse.mp occurs)
  simp only [Fits, isThere, Option.map_some]

/-- A muted writer announces nothing. -/
theorem run_announceLayers_headers (package : Json) (fileName : String)
    {places : List (Layer × Nat)} (areHeaders : ∀ place ∈ places, place.1.isHeader = true)
    (desk : Desk) : (places.forM (announceLayer package fileName)).run desk = (.ok (), desk) := by
  induction places with
  | nil => rfl
  | cons place rest ih =>
      obtain ⟨layer, index⟩ := place
      obtain ⟨isHeader, areOthers⟩ := List.forall_mem_cons.mp areHeaders
      cases layer with
      | header text => exact ih areOthers
      | progress total announced => cases isHeader

theorem run_announce_muted (system : FileSystem) (channel : Channel) (writer : Writer) :
    (announce package fileName).run { system, channel, writer := writer.muted } =
      (.ok (), { system, channel, writer := writer.muted }) := by
  refine run_announceLayers_headers package fileName (fun place occurs => ?_) _
  have isLayer := List.mem_zipIdx_iff_getElem?.mp (List.mem_reverse.mp occurs)
  exact (List.mem_filter.mp (List.mem_of_getElem? isLayer)).2

theorem announces_openDestination : Announces (openDestination package fileName) := by
  refine (announces_ofExcept _).bind fun path => ?_
  refine announces_get (fun system channel writer => rfl) fun desk => ?_
  dsimp only
  split
  · exact announces_pure _
  · split
    · exact (announces_throw _).bind fun _ => announces_pure _
    · exact announces_pure _

/-- Announcing a file and opening it fails exactly if opening it fails. -/
theorem announces_announce {next : Destination → Writing α}
    (announces : ∀ destination, Announces (next destination)) :
    Announces (do
      announce package fileName
      let destination ← openDestination package fileName
      next destination) := by
  intro system writer
  obtain ⟨result, layers, told, isTold, isMuted, failing, runs⟩ :=
    run_announceLayers package fileName writer.layers.zipIdx.reverse writer (fits_zipIdx writer)
  let changed : Writer := { writer with layers }
  have announcing channel : (announce package fileName).run { system, channel, writer } =
      (result, { system, channel := apply told channel, writer := changed }) :=
    runs system channel writer.core
  cases result with
  | error fault =>
      refine ⟨.error fault, system, changed, told, isTold, fun channel => ⟨?_, ?_⟩⟩
      · rw [run_bind, announcing]
      · rw [run_bind, run_announce_muted, show changed.muted = writer.muted from isMuted]
        unfold openDestination
        rw [failing fault rfl]
        rfl
  | ok =>
      obtain ⟨result, later, last, further, isFurther, goesOn⟩ :=
        announces_openDestination.bind announces system changed
      refine ⟨result, later, last, told ++ further, isAnnouncement_append isTold isFurther,
        fun channel => ⟨?_, ?_⟩⟩
      · rw [run_bind, announcing, apply_append]
        exact (goesOn _).1
      · rw [run_bind, run_announce_muted, ← show changed.muted = writer.muted from isMuted]
        exact (goesOn channel).2

theorem announces_commit (destination : Destination) (bytes : List UInt8) :
    Announces (commit destination bytes) := by
  unfold commit
  cases destination with
  | path path readOnly => exact announces_filing _
  | entry name =>
      refine announces_changeWriter fun writer => ?_
      cases isCore : writer.core <;> simp [Writer.muted, isCore]

theorem announces_abandon (destination : Destination) (bytes : List UInt8) :
    Announces (abandon destination bytes) :=
  (announces_commit destination bytes).tryCatch fun _ => announces_pure ()

theorem headerPieces_muted (writer : Writer) (fileName : String) :
    headerPieces writer.muted fileName = headerPieces writer fileName := by
  unfold headerPieces Writer.muted
  dsimp only
  induction writer.layers with
  | nil => rfl
  | cons layer rest ih =>
      cases layer with
      | header text => exact congrArg (Header.pieces text fileName ++ ·) ih
      | progress total announced => exact ih

theorem announces_openSource : Announces (openSource package fileName) := by
  refine announces_announce fun destination => ?_
  refine announces_get (fun system channel writer => ?_) fun desk => ?_
  · simp only [headerPieces_muted]
    rfl
  · dsimp only
    split
    · exact (announces_abandon _ _).bind fun _ => announces_throw _
    · split
      · exact announces_pure _
      · exact (announces_abandon _ _).bind fun _ => announces_throw _

theorem announces_finishSource (source : OpenSource) (texts : List String) :
    Announces (finishSource source texts) := by
  unfold finishSource
  refine (announces_commit _ _).bind fun _ => ?_
  split
  · exact announces_pure ()
  · exact announces_throw _

theorem announces_close : Announces close :=
  announces_changeWriter fun _ => rfl

theorem announces_openingFault (fault : Fault) : Announces (openingFault fault) := by
  refine announces_get (fun system channel writer => rfl) fun desk => ?_
  split
  · exact announces_pure _
  · exact announces_pure _

theorem announces_writePlanned (file : PlannedFile) : Announces (writePlanned file) := by
  refine (announces_ofExcept _).bind fun text => ?_
  refine Announces.bind ?_ fun source => announces_finishSource source [text]
  refine announces_openSource.tryCatch fun fault => ?_
  exact (announces_openingFault fault).bind announces_throw

/-- Writing files only announces them. -/
theorem announces_deliver (files : List PlannedFile) : Announces (deliver files) := by
  refine Announces.bind ?_ fun _ => announces_close
  refine (announces_forM announces_writePlanned).tryCatch fun fault => ?_
  exact announces_close.bind fun _ => announces_throw fault

end Writing

end Typeloom
