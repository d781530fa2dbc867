import Mathlib.Data.List.Forall2
import Typeloom.Proofs.Output.Deposits

/-!
# Progress

A writer that announces files one by one tells the listener the number of each file before it opens
it.  The first file that cannot be rendered or written is the last one that is looked at, and the
writer is closed once in either case.
-/

namespace Typeloom

/-- What the listener is told of files with consecutive numbers. -/
def announcements (total first : Nat) (paths : List String) : List Event :=
  (paths.zipIdx first).map fun place => .generated place.1 place.2 total

/-- A desk whose listener has been told of files by the outermost layer of its writer. -/
def Desk.announcing (headers : List Layer) (total count : Nat) (paths : List String)
    (desk : Desk) : Desk :=
  { desk with
    channel :=
      { desk.channel with
        events := desk.channel.events ++ announcements total (count + 1) paths }
    writer :=
      { desk.writer with layers := headers ++ [.progress total (count + paths.length)] } }

namespace Writing

variable {file : PlannedFile} {files : List PlannedFile} {desk opened after : Desk}
  {headers : List Layer} {total count : Nat} {path : String} {paths : List String}

/-! ## One file -/

/-- Bytes and where they go are those of a file as a whole. -/
structure IsWhole (writer : Writer) (file : PlannedFile) (deposit : Destination × List UInt8) :
    Prop where
  isThere : ∃ path, unitPath file.package file.fileName = .ok path ∧
    deposit.1 = writer.core.destination path
  holds : ∃ text, file.text = .ok text ∧
    encodedFile deposit.1.isSeekable writer.encoding
      (headerPieces writer file.fileName ++ [text]) = .ok deposit.2

/-- Only the places of files, the character set and the headers of a writer matter to them. -/
theorem IsWhole.congr {writer other : Writer} {deposit : Destination × List UInt8}
    (isWhole : IsWhole writer file deposit)
    (sameDestination : writer.core.destination = other.core.destination)
    (sameEncoding : writer.encoding = other.encoding)
    (samePieces : headerPieces writer file.fileName = headerPieces other file.fileName) :
    IsWhole other file deposit := by
  obtain ⟨isThere, holds⟩ := isWhole
  rw [sameDestination] at isThere
  rw [sameEncoding, samePieces] at holds
  exact ⟨isThere, holds⟩

theorem destination_of_run_openDestination {destination : Destination} {package : Json}
    {fileName : String}
    (opens : (openDestination package fileName).run desk = (.ok destination, desk)) :
    ∃ path, unitPath package fileName = .ok path ∧
      destination = desk.writer.core.destination path := by
  unfold openDestination at opens
  cases hasPath : unitPath package fileName with
  | error fault =>
      rw [hasPath] at opens
      cases opens
  | ok path =>
      rw [hasPath, show (ofExcept (.ok path) : Writing String) = pure path from rfl, pure_bind,
        run_get_bind] at opens
      refine ⟨path, rfl, ?_⟩
      dsimp only at opens
      cases isCore : desk.writer.core with
      | directory target readOnly =>
          rw [isCore] at opens
          exact (Except.ok.inj (congrArg Prod.fst opens)).symm
      | archive entries =>
          rw [isCore] at opens
          dsimp only at opens
          split at opens
          · cases opens
          · exact (Except.ok.inj (congrArg Prod.fst opens)).symm

/-- The outermost layer tells the listener of a file, and adds it to those that it has announced. -/
theorem run_announce_progress (areHeaders : ∀ layer ∈ headers, layer.isHeader = true)
    (layers_eq : desk.writer.layers = headers ++ [.progress total count])
    (hasPath : unitPath file.package file.fileName = .ok path) :
    (announce file.package file.fileName).run desk =
      (.ok (), desk.announcing headers total count [path]) := by
  have innermost : ∀ place ∈ headers.zipIdx.reverse, place.1.isHeader = true := by
    rintro ⟨layer, index⟩ occurs
    have isLayer := List.mem_zipIdx_iff_getElem?.mp (List.mem_reverse.mp occurs)
    exact areHeaders _ (List.mem_of_getElem? isLayer)
  unfold announce
  rw [run_get_bind, layers_eq, List.zipIdx_append, List.reverse_append]
  change (announceLayer file.package file.fileName (.progress total count, 0 + headers.length) >>=
    fun _ => headers.zipIdx.reverse.forM (announceLayer file.package file.fileName)).run desk = _
  rw [run_bind, run_announceLayer, hasPath]
  dsimp only
  rw [run_announceLayers_headers _ _ innermost, replaceLayer, layers_eq, Nat.zero_add,
    List.set_append_right _ _ (Nat.le_refl _), Nat.sub_self]
  rfl

/-- Once a file has been announced, its bytes are put, and no more. -/
theorem exists_run_writePlanned (hasText : ∃ text, file.text = .ok text)
    (announces : (announce file.package file.fileName).run desk = (.ok (), opened)) :
    ∃ result system core, (writePlanned file).run desk = (result, opened.holding system core) := by
  obtain ⟨text, hasText⟩ := hasText
  obtain ⟨result, opens⟩ := exists_run_openDestination file.package file.fileName opened
  cases result with
  | error fault =>
      have fails : (openSource file.package file.fileName).run desk = (.error fault, opened) := by
        rw [openSource, run_bind, announces]
        dsimp only
        rw [run_bind, opens]
      obtain ⟨thrown, isThrown⟩ := exists_run_writePlanned_of_unopened hasText fails
      exact ⟨.error thrown, opened.system, opened.writer.core, isThrown⟩
  | ok destination =>
      rw [run_writePlanned hasText announces opens]
      obtain ⟨result, later, last, -, runs⟩ := onlyPuts_closePortion destination
        (portion destination opened.writer.encoding (headerPieces opened.writer file.fileName) text)
        opened.system opened.writer.core
      exact ⟨result, later, last, runs opened⟩

/-- The headers of a file do not depend on what has been announced. -/
theorem headerPieces_announcing
    (layers_eq : desk.writer.layers = headers ++ [.progress total count])
    (paths : List String) (fileName : String) :
    headerPieces (desk.announcing headers total count paths).writer fileName =
      headerPieces desk.writer fileName := by
  unfold headerPieces Desk.announcing
  rw [layers_eq]
  simp only [List.flatMap_append, List.flatMap_cons, List.flatMap_nil]

/-- How a file is written that is announced by the outermost layer. -/
theorem exists_whole_of_run_writePlanned
    (areHeaders : ∀ layer ∈ headers, layer.isHeader = true)
    (layers_eq : desk.writer.layers = headers ++ [.progress total count])
    (hasPath : unitPath file.package file.fileName = .ok path)
    (runs : (writePlanned file).run desk = (.ok (), after)) :
    ∃ deposit system core, IsWhole desk.writer file deposit ∧
      core.destination = desk.writer.core.destination ∧
      after = (desk.announcing headers total count [path]).holding system core ∧
      (commit deposit.1 deposit.2).run desk = (.ok (), desk.holding system core) := by
  obtain ⟨opened, deposit, announces, deposits⟩ := run_writePlanned_eq_ok_iff.mp runs
  cases (run_announce_progress areHeaders layers_eq hasPath).symm.trans announces
  obtain ⟨text, hasText, isWhole⟩ := deposits.isWhole
  rw [headerPieces_announcing layers_eq] at isWhole
  obtain ⟨result, system, core, same, commits⟩ :=
    onlyPuts_commit deposit.1 deposit.2 desk.system desk.writer.core
  have committed := (commits (desk.announcing headers total count [path])).symm.trans
    deposits.commits
  obtain ⟨rfl, isAfter⟩ := Prod.mk.inj committed
  obtain ⟨path, hasPath, isThere⟩ := destination_of_run_openDestination deposits.opens
  exact ⟨deposit, system, core, ⟨⟨path, hasPath, isThere⟩, text, hasText, isWhole⟩, same,
    isAfter.symm, commits desk⟩

/-! ## All files -/

/-- Files that are written one after the other all succeed, or the first one that fails is the last
one that matters. -/
theorem run_forM_cases (files : List PlannedFile) (desk : Desk) :
    (∃ after, (files.forM writePlanned).run desk = (.ok (), after)) ∨
      ∃ before file rest between fault after, files = before ++ file :: rest ∧
        (before.forM writePlanned).run desk = (.ok (), between) ∧
        (writePlanned file).run between = (.error fault, after) := by
  induction files generalizing desk with
  | nil => exact Or.inl ⟨desk, rfl⟩
  | cons first rest ih =>
      rcases runs : (writePlanned first).run desk with ⟨fault | ⟨⟩, between⟩
      · exact Or.inr ⟨[], first, rest, desk, fault, between, rfl, rfl, runs⟩
      · have goesOn (files : List PlannedFile) : ((first :: files).forM writePlanned).run desk =
            (files.forM writePlanned).run between := by
          rw [List.forM, run_bind, runs]
        rcases ih between with ⟨after, succeeds⟩ |
          ⟨before, file, others, last, fault, after, rfl, succeeds, fails⟩
        · exact Or.inl ⟨after, (goesOn rest).trans succeeds⟩
        · exact Or.inr ⟨first :: before, file, others, last, fault, after, rfl,
            (goesOn before).trans succeeds, fails⟩

theorem run_forM_append {before : List PlannedFile} {between : Desk}
    (runs : (before.forM writePlanned).run desk = (.ok (), between)) (rest : List PlannedFile) :
    ((before ++ rest).forM writePlanned).run desk = (rest.forM writePlanned).run between := by
  induction before generalizing desk with
  | nil =>
      cases runs
      rfl
  | cons first before ih =>
      rw [List.forM, run_bind] at runs
      rw [List.cons_append, List.forM, run_bind]
      rcases writes : (writePlanned first).run desk with ⟨fault | ⟨⟩, next⟩
      all_goals rw [writes] at runs
      · cases runs
      · exact ih runs

/-- Files are announced one after the other. -/
theorem announcing_append (headers : List Layer) (total count : Nat) (paths others : List String)
    (desk : Desk) :
    desk.announcing headers total count (paths ++ others) =
      (desk.announcing headers total count paths).announcing headers total (count + paths.length)
        others := by
  simp only [Desk.announcing, announcements, List.zipIdx_append, List.map_append,
    List.append_assoc, List.length_append, Nat.add_assoc, Nat.add_comm paths.length 1]

theorem announcing_nil (layers_eq : desk.writer.layers = headers ++ [.progress total count]) :
    desk.announcing headers total count [] = desk := by
  simp only [Desk.announcing, announcements, List.zipIdx_nil, List.map_nil, List.append_nil,
    List.length_nil, Nat.add_zero, ← layers_eq]

/-- Files that are all written are announced one by one, and each is put as a whole. -/
theorem exists_whole_of_run_forM (areHeaders : ∀ layer ∈ headers, layer.isHeader = true)
    (layers_eq : desk.writer.layers = headers ++ [.progress total count])
    (havePaths : files.map (fun file => unitPath file.package file.fileName) = paths.map .ok)
    (runs : (files.forM writePlanned).run desk = (.ok (), after)) :
    ∃ deposits system core, List.Forall₂ (IsWhole desk.writer) files deposits ∧
      core.destination = desk.writer.core.destination ∧
      after = (desk.announcing headers total count paths).holding system core ∧
      (deposits.forM fun deposit => commit deposit.1 deposit.2).run desk =
        (.ok (), desk.holding system core) := by
  induction files generalizing desk count paths with
  | nil =>
      cases runs
      obtain rfl : paths = [] := by simpa using havePaths.symm
      refine ⟨[], after.system, after.writer.core, .nil, rfl, ?_, rfl⟩
      rw [announcing_nil layers_eq]
      rfl
  | cons file files ih =>
      cases paths with
      | nil => cases havePaths
      | cons path paths =>
          obtain ⟨hasPath, havePaths⟩ := List.cons.inj havePaths
          rw [List.forM, run_bind] at runs
          rcases writes : (writePlanned file).run desk with ⟨fault | ⟨⟩, between⟩
          all_goals rw [writes] at runs
          · cases runs
          · obtain ⟨deposit, system, core, isFirst, same, rfl, commits⟩ :=
              exists_whole_of_run_writePlanned areHeaders layers_eq hasPath writes
            obtain ⟨deposits, later, last, areWhole, sameThen, rfl, commitsThen⟩ :=
              ih rfl havePaths runs
            refine ⟨deposit :: deposits, later, last, .cons isFirst ?_, sameThen.trans same, ?_, ?_⟩
            · refine areWhole.imp fun file deposit isWhole => isWhole.congr same rfl ?_
              exact headerPieces_announcing layers_eq [path] file.fileName
            · have together := announcing_append headers total count [path] paths desk
              rw [List.singleton_append] at together
              rw [together]
              rfl
            · rw [List.forM, run_bind, commits]
              exact (onlyPuts_forM fun _ => onlyPuts_commit _ _).run_holding commitsThen desk

/-- The number of files that are announced if a file fails after others have been written: it is
announced once it has been rendered. -/
def announcedAtFailure (before : List PlannedFile) (file : PlannedFile) : Nat :=
  match file.text with
  | .error _ => before.length
  | .ok _ => before.length + 1

/-- What has been announced when the first file fails. -/
theorem announced_of_failed (areHeaders : ∀ layer ∈ headers, layer.isHeader = true)
    (layers_eq : desk.writer.layers = headers ++ [.progress total 0])
    {before rest : List PlannedFile} {between : Desk} {fault : Fault}
    (havePaths : (before ++ file :: rest).map (fun file => unitPath file.package file.fileName) =
      paths.map .ok)
    (runs : (before.forM writePlanned).run desk = (.ok (), between))
    (fails : (writePlanned file).run between = (.error fault, after)) :
    after.channel =
        { desk.channel with
          events := desk.channel.events ++
            announcements total 1 (paths.take (announcedAtFailure before file)) } ∧
      after.writer.closings = desk.writer.closings := by
  rw [List.map_append] at havePaths
  obtain ⟨first, later, rfl, havePathsFirst, havePathsLater⟩ :=
    List.map_eq_append_iff.mp havePaths.symm
  obtain ⟨path, later, rfl, hasPath, -⟩ := List.map_eq_cons_iff.mp havePathsLater
  obtain ⟨-, system, core, -, -, isBetween, -⟩ :=
    exists_whole_of_run_forM areHeaders layers_eq havePathsFirst.symm runs
  have sameLength : before.length = first.length := by
    simpa using congrArg List.length havePathsFirst.symm
  cases hasText : file.text with
  | error refusal =>
      obtain ⟨-, rfl⟩ := Prod.mk.inj ((run_writePlanned_of_noText hasText between).symm.trans fails)
      rw [announcedAtFailure, hasText, sameLength, List.take_left, isBetween]
      exact ⟨rfl, rfl⟩
  | ok text =>
      have layersThen : between.writer.layers =
          headers ++ [.progress total (0 + first.length)] := by
        rw [isBetween]
        rfl
      have announces := run_announce_progress areHeaders layersThen hasPath.symm
      obtain ⟨_, _, _, writes⟩ := exists_run_writePlanned ⟨text, hasText⟩ announces
      obtain ⟨-, rfl⟩ := Prod.mk.inj (writes.symm.trans fails)
      have together := announcing_append headers total 0 first [path] desk
      rw [announcedAtFailure, hasText, sameLength, List.take_length_add_append, isBetween]
      exact ⟨(congrArg Desk.channel together).symm, rfl⟩

/-- Files that are written with a layer outermost that announces them: what the listener is told,
how often the writer is closed, and what becomes of the files. -/
theorem run_deliver_progress (areHeaders : ∀ layer ∈ headers, layer.isHeader = true)
    (layers_eq : desk.writer.layers = headers ++ [.progress files.length 0])
    (havePaths : files.map (fun file => unitPath file.package file.fileName) = paths.map .ok) :
    ∃ number result after, (deliver files).run desk = (result, after) ∧
      after.channel =
        { desk.channel with
          events := desk.channel.events ++ announcements files.length 1 (paths.take number) } ∧
      after.writer.closings = desk.writer.closings + 1 ∧
      (result = .ok () ∧ number = files.length ∧
          (∃ deposits, List.Forall₂ (IsWhole desk.writer) files deposits ∧
            (deposits.forM fun deposit => commit deposit.1 deposit.2).run desk =
              (.ok (), desk.holding after.system after.writer.core)) ∨
        ∃ before file rest between fault, files = before ++ file :: rest ∧
          (before.forM writePlanned).run desk = (.ok (), between) ∧
          ((writePlanned file).run between).1 = .error fault ∧ result = .error fault ∧
          number = announcedAtFailure before file ∧
          ∀ others, (deliver (before ++ file :: others)).run desk = (result, after)) := by
  rw [run_deliver]
  rcases run_forM_cases files desk with
    ⟨after, runs⟩ | ⟨before, file, rest, between, fault, after, isSplit, runs, fails⟩
  · obtain ⟨deposits, system, core, areWhole, -, rfl, commits⟩ :=
      exists_whole_of_run_forM areHeaders layers_eq havePaths runs
    rw [runs]
    have enough : paths.length ≤ files.length := by
      simpa using Nat.le_of_eq (congrArg List.length havePaths).symm
    refine ⟨files.length, .ok (), _, rfl, ?_, rfl, Or.inl ⟨rfl, rfl, deposits, areWhole, commits⟩⟩
    rw [List.take_of_length_le enough]
    rfl
  · rw [isSplit] at havePaths
    obtain ⟨isChannel, sameClosings⟩ :=
      announced_of_failed areHeaders layers_eq havePaths runs fails
    have stops (others : List PlannedFile) :
        ((before ++ file :: others).forM writePlanned).run desk = (.error fault, after) := by
      rw [run_forM_append runs, List.forM, run_bind, fails]
    rw [isSplit, stops rest, ← isSplit]
    refine ⟨announcedAtFailure before file, .error fault, _, rfl, isChannel,
      congrArg (· + 1) sameClosings, Or.inr ⟨before, file, rest, between, fault, isSplit, runs,
        congrArg Prod.fst fails, rfl, rfl, fun others => ?_⟩⟩
    rw [run_deliver, stops]

/-- The second of two files cannot be rendered, so the listener is not told of it. -/
theorem run_deliver_progress_unrendered :
    let files : List PlannedFile :=
      [{ package := .null, fileName := "a.py", text := .ok "a = 1" },
        { package := .null, fileName := "b.py", text := .error .unencodable }]
    let desk : Desk :=
      { system := default
        channel := {}
        writer := { core := .archive [], layers := [.header "Made", .progress 2 0] } }
    ∃ fault after, (deliver files).run desk = (.error fault, after) ∧
      after.channel.events = [.generated "a.py" 1 2] ∧ after.writer.closings = 1 := by
  intro files desk
  obtain ⟨number, result, after, runs, isChannel, closings, wholeOrCut⟩ :=
    @run_deliver_progress files desk [.header "Made"] ["a.py", "b.py"] (by decide) rfl rfl
  rcases wholeOrCut with ⟨rfl, -, deposits, areWhole, -⟩ |
    ⟨before, file, rest, between, fault, isSplit, -, -, rfl, rfl, -⟩
  · obtain _ | ⟨-, others⟩ : List.Forall₂ (IsWhole desk.writer) (_ :: _) deposits := areWhole
    obtain _ | ⟨isSecond, -⟩ := others
    obtain ⟨text, isText, -⟩ := isSecond.holds
    cases isText
  · have onlyFirst : announcedAtFailure before file = 1 := by
      rcases before with _ | ⟨first, _ | ⟨second, before⟩⟩
      · obtain ⟨rfl, -⟩ := List.cons.inj isSplit
        rfl
      · obtain ⟨-, isSecond⟩ := List.cons.inj isSplit
        obtain ⟨rfl, -⟩ := List.cons.inj isSecond
        rfl
      · obtain ⟨-, isSecond⟩ := List.cons.inj isSplit
        obtain ⟨-, isThird⟩ := List.cons.inj isSecond
        cases before <;> cases isThird
    refine ⟨fault, after, runs, ?_, closings⟩
    rw [isChannel, onlyFirst]
    rfl

end Writing

end Typeloom
