import Typeloom.Proofs.Output.Deposits

/-!
# Headers are comments

Whatever a header says, it stays within the comment at the beginning of a file.  It is taken apart
at every character that ends a line in the language of the file, and each of its lines gets the
mark of a comment.  Behind it comes an empty line, and then the text of the file as it is.
-/

namespace Typeloom

namespace Text

/-- Whether a line of source code ends with a character: a line feed, a carriage return, a next
line, a line separator or a paragraph separator. -/
def endsSourceLine (character : Char) : Bool :=
  [10, 13, 133, 8232, 8233].contains character.toNat

/-- The lines of source code.  A carriage return and a line feed together end one line. -/
def sourceLines : List Char → List (List Char)
  | [] => []
  | '\r' :: '\n' :: rest => [] :: sourceLines rest
  | character :: rest =>
      if endsSourceLine character then [] :: sourceLines rest
      else consLine character (sourceLines rest)

theorem isLineBreak_of_endsSourceLine {character : Char} (ends : endsSourceLine character = true) :
    isLineBreak character = true := by
  have among : [10, 13, 133, 8232, 8233] ⊆ [10, 11, 12, 13, 28, 29, 30, 133, 8232, 8233] := by
    decide
  exact List.contains_iff_mem.mpr (among (List.contains_iff_mem.mp ends))

/-- A line that is ended by a line feed and by nothing before it. -/
theorem sourceLines_append {line : List Char}
    (goesOn : ∀ character ∈ line, endsSourceLine character = false) (rest : List Char) :
    sourceLines (line ++ '\n' :: rest) = line :: sourceLines rest := by
  induction line with
  | nil =>
      rw [List.nil_append, sourceLines, if_pos (by decide)]
      exact fun _ isReturn => absurd isReturn (by decide)
  | cons character line ih =>
      obtain ⟨noEnd, goesOn⟩ := List.forall_mem_cons.mp goesOn
      rw [List.cons_append, sourceLines, noEnd, if_neg Bool.false_ne_true, ih goesOn]
      · rfl
      · rintro _ rfl
        cases noEnd

/-- No line of a text holds a line break. -/
theorem noBreak_of_mem_lines {text line : List Char} (occurs : line ∈ lines text) :
    ∀ character ∈ line, isLineBreak character = false := by
  induction text using lines.induct generalizing line with
  | case1 => cases occurs
  | case2 rest ih =>
      rw [lines] at occurs
      rcases List.mem_cons.mp occurs with rfl | later
      · simp
      · exact ih later
  | case3 character rest _ isBreak ih =>
      rw [lines, if_pos isBreak] at occurs
      · rcases List.mem_cons.mp occurs with rfl | later
        · simp
        · exact ih later
      · assumption
  | case4 character rest _ noBreak ih =>
      rw [lines, if_neg noBreak] at occurs
      · cases others : lines rest with
        | nil =>
            rw [others, consLine, List.mem_singleton] at occurs
            simpa [occurs] using noBreak
        | cons first more =>
            rw [others, consLine] at occurs
            rw [others] at ih
            rcases List.mem_cons.mp occurs with rfl | later
            · exact List.forall_mem_cons.mpr ⟨by simpa using noBreak, ih List.mem_cons_self⟩
            · exact ih (List.mem_cons_of_mem _ later)
      · assumption

end Text

namespace Header

/-- What a line of a comment begins with in a file of the given name. -/
def marker (fileName : String) : List Char :=
  if Text.endsWith fileName ".py" then ['#'] else ['/', '/']

theorem marker_python {fileName : String} (isPython : Text.endsWith fileName ".py" = true) :
    marker fileName = ['#'] :=
  if_pos isPython

theorem marker_csharp {fileName : String} (isCSharp : Text.endsWith fileName ".cs" = true) :
    marker fileName = ['/', '/'] := by
  refine if_neg fun isPython => ?_
  have ends {tail : String} {last : Char} (isTail : Text.endsWith fileName tail = true)
      (isLast : tail.toList.getLast? = some last) : fileName.toList.getLast? = some last := by
    obtain ⟨start, isSplit⟩ := List.isSuffixOf_iff_suffix.mp isTail
    rw [← isSplit, List.getLast?_append, isLast]
    rfl
  cases (ends isPython rfl).symm.trans (ends isCSharp rfl)

/-- The comment that a header makes in a file of the given name. -/
def comment (header fileName : String) : String :=
  String.join ((Text.lines header.toList).map (commentLine (commentMark fileName)))

theorem join_pieces (header fileName : String) :
    String.join (pieces header fileName) = comment header fileName ++ "\n" := by
  rw [pieces, String.join_append]
  rfl

theorem trimEnd_append {start : List Char}
    (ends : ∀ character ∈ start.getLast?, Unicode.isBlank character = false) (text : List Char) :
    ∃ rest, Unicode.trimEnd (start ++ text) = start ++ rest ∧ rest ⊆ text := by
  rw [Unicode.trimEnd, List.reverse_append, List.dropWhile_append]
  split
  · have keeps : start.reverse.dropWhile Unicode.isBlank = start.reverse :=
      @Unicode.dropWhile_isBlank_append [] start.reverse (by simp)
        (by simpa only [List.head?_reverse] using ends)
    exact ⟨[], by rw [keeps, List.reverse_reverse, List.append_nil], List.nil_subset _⟩
  · refine ⟨(text.reverse.dropWhile Unicode.isBlank).reverse, by simp, fun character occurs => ?_⟩
    exact List.mem_reverse.mp ((List.dropWhile_suffix _).subset (List.mem_reverse.mp occurs))

/-- A line of a comment begins with the marker and is ended by the line feed behind it, and by
nothing before. -/
theorem exists_commentLine (fileName : String) {line : List Char}
    (noBreak : ∀ character ∈ line, Text.isLineBreak character = false) :
    ∃ text, (commentLine (commentMark fileName) line).toList = text ++ ['\n'] ∧
      marker fileName <+: text ∧ ∀ character ∈ text, Text.endsSourceLine character = false := by
  have mark : (commentMark fileName).toList = marker fileName ++ [' '] := by
    unfold commentMark marker
    split <;> rfl
  have ends : ∀ character ∈ (marker fileName).getLast?, Unicode.isBlank character = false := by
    unfold marker
    split
    all_goals
      rintro _ ⟨⟩
      decide
  obtain ⟨rest, isTrimmed, subset⟩ := trimEnd_append ends (' ' :: line)
  refine ⟨marker fileName ++ rest, ?_, List.prefix_append _ _, ?_⟩
  · rw [commentLine, String.toList_append, String.toList_ofList, mark, List.append_assoc,
      List.singleton_append, isTrimmed]
    rfl
  · have goesOn : ∀ character ∈ ' ' :: line, Text.endsSourceLine character = false :=
      List.forall_mem_cons.mpr ⟨by decide, fun character occurs => Bool.eq_false_iff.mpr fun ends =>
        Bool.eq_false_iff.mp (noBreak character occurs) (Text.isLineBreak_of_endsSourceLine ends)⟩
    have marks : (marker fileName).any Text.endsSourceLine = false := by
      unfold marker
      split <;> decide
    exact List.forall_mem_append.mpr
      ⟨fun character occurs => Bool.eq_false_iff.mpr (List.any_eq_false.mp marks character occurs),
        fun character occurs => goesOn character (subset occurs)⟩

/-- Every line of the comment that a header makes begins with the marker, and what stands behind the
comment begins with a line of its own. -/
theorem sourceLines_comment (header fileName : String) :
    (∀ line ∈ Text.sourceLines (comment header fileName).toList, marker fileName <+: line) ∧
      ∀ rest, Text.sourceLines ((comment header fileName).toList ++ rest) =
        Text.sourceLines (comment header fileName).toList ++ Text.sourceLines rest := by
  have noBreaks : ∀ line ∈ Text.lines header.toList, ∀ character ∈ line,
      Text.isLineBreak character = false := fun _ => Text.noBreak_of_mem_lines
  unfold comment
  generalize Text.lines header.toList = lines at noBreaks
  induction lines with
  | nil => exact ⟨by simp [Text.sourceLines], fun rest => rfl⟩
  | cons line lines ih =>
      obtain ⟨noBreak, noBreaks⟩ := List.forall_mem_cons.mp noBreaks
      obtain ⟨text, isLine, isMarked, goesOn⟩ := exists_commentLine fileName noBreak
      obtain ⟨areMarked, apart⟩ := ih noBreaks
      have unfolds (rest : List Char) :
          (String.join ((line :: lines).map (commentLine (commentMark fileName)))).toList ++ rest =
            text ++ '\n' :: ((String.join (lines.map (commentLine
              (commentMark fileName)))).toList ++ rest) := by
        simp [String.join_cons, isLine]
      have first := Text.sourceLines_append goesOn
        (String.join (lines.map (commentLine (commentMark fileName)))).toList
      have alone := unfolds []
      rw [List.append_nil, List.append_nil] at alone
      rw [alone, first]
      refine ⟨List.forall_mem_cons.mpr ⟨isMarked, areMarked⟩, fun rest => ?_⟩
      rw [← alone, unfolds rest, Text.sourceLines_append goesOn, apart]
      rfl

end Header

/-- A desk whose writer has the given layers. -/
def Desk.layered (layers : List Layer) (desk : Desk) : Desk :=
  { desk with writer := { desk.writer with layers } }

namespace Writing

variable {file : PlannedFile} {desk after : Desk}

/-- Where a file goes does not depend on the layers of the writer. -/
theorem run_openDestination_layered {layers others : List Layer} {package : Json}
    {fileName : String} {destination : Destination}
    (opens : (openDestination package fileName).run (desk.layered layers) =
      (.ok destination, desk.layered layers)) :
    (openDestination package fileName).run (desk.layered others) =
      (.ok destination, desk.layered others) := by
  obtain ⟨result, runs⟩ := exists_run_openDestination package fileName (desk.layered others)
  have same : ((openDestination package fileName).run (desk.layered layers)).1 =
      ((openDestination package fileName).run (desk.layered others)).1 := by
    unfold openDestination
    cases unitPath package fileName with
    | error fault => rfl
    | ok path =>
        rw [show (ofExcept (.ok path) : Writing String) = pure path from rfl, pure_bind,
          run_get_bind, run_get_bind, Desk.layered, Desk.layered]
        dsimp only
        cases desk.writer.core with
        | directory target readOnly => rfl
        | archive entries =>
            dsimp only
            split <;> rfl
  rw [opens, runs] at same
  rw [runs, ← show Except.ok destination = result from same]

/-- Nor does what becomes of a file when it is closed. -/
theorem run_commit_layered (layers : List Layer) (destination : Destination) (bytes : List UInt8)
    (desk : Desk) :
    (commit destination bytes).run (desk.layered layers) =
      (((commit destination bytes).run desk).1,
        ((commit destination bytes).run desk).2.layered layers) := by
  obtain ⟨result, later, last, -, commits⟩ :=
    onlyPuts_commit destination bytes desk.system desk.writer.core
  have here : (commit destination bytes).run desk = (result, desk.holding later last) :=
    commits desk
  rw [here]
  exact commits (desk.layered layers)

theorem run_commit_layered_iff {layers others : List Layer} {destination : Destination}
    {bytes : List UInt8} :
    (commit destination bytes).run (desk.layered layers) = (.ok (), after) ↔
      after.writer.layers = layers ∧
        (commit destination bytes).run (desk.layered others) = (.ok (), after.layered others) := by
  rw [run_commit_layered layers, run_commit_layered others]
  generalize (commit destination bytes).run desk = outcome
  obtain ⟨result, closed⟩ := outcome
  constructor
  · intro commits
    obtain ⟨isResult, isClosed⟩ := Prod.mk.inj commits
    rw [isResult, ← isClosed]
    exact ⟨rfl, rfl⟩
  · rintro ⟨areLayers, commits⟩
    obtain ⟨isResult, isClosed⟩ := Prod.mk.inj commits
    have same : (closed.layered others).layered layers = (after.layered others).layered layers :=
      congrArg (Desk.layered layers) isClosed
    have isAfter : closed.layered layers = after := by
      rw [← areLayers] at same ⊢
      exact same
    rw [isResult, isAfter]

theorem join_headerPieces_layered (desk : Desk) (header fileName content : String) :
    String.join (headerPieces (desk.layered [.header header]).writer fileName ++ [content]) =
      String.join (headerPieces (desk.layered []).writer fileName ++
        [Header.comment header fileName ++ "\n" ++ content]) := by
  have pieces : headerPieces (desk.layered [.header header]).writer fileName =
      Header.pieces header fileName := List.append_nil _
  have none : headerPieces (desk.layered []).writer fileName = [] := rfl
  rw [pieces, none, String.join_append, Header.join_pieces, List.nil_append]
  simp only [String.join_cons, String.join_nil, String.append_empty]

/-- What is put behind a header is put in the same way where there is no header, together with its
comment. -/
theorem deposits_header_iff {header fileName content : String} {package : Json}
    {deposit : Destination × List UInt8} :
    Deposits { package, fileName, text := .ok content } (desk.layered [.header header]) after
        deposit ↔
      after.writer.layers = [.header header] ∧
        Deposits
          { package, fileName, text := .ok (Header.comment header fileName ++ "\n" ++ content) }
          (desk.layered []) (after.layered []) deposit := by
  have sameFile := encodedFile_congr (join_headerPieces_layered desk header fileName content)
    deposit.1.isSeekable desk.writer.encoding
  constructor
  · rintro ⟨opens, ⟨text, isText, isWhole⟩, commits⟩
    obtain ⟨isLayer, commits⟩ := run_commit_layered_iff.mp commits
    cases isText
    exact ⟨isLayer, run_openDestination_layered opens,
      ⟨_, rfl, sameFile.symm.trans isWhole⟩, commits⟩
  · rintro ⟨isLayer, opens, ⟨text, isText, isWhole⟩, commits⟩
    cases isText
    exact ⟨run_openDestination_layered opens, ⟨_, rfl, sameFile.trans isWhole⟩,
      run_commit_layered_iff.mpr ⟨isLayer, commits⟩⟩

/-- A file with a header is written just as the comment of the header, an empty line and the text
of the file are written without one.  All lines of the comment begin with the marker for the
language of the file. -/
theorem run_writePlanned_header (header : String) (package : Json) (fileName content : String) :
    let comment := Header.comment header fileName
    let whole := comment ++ "\n" ++ content
    (∀ line ∈ Text.sourceLines comment.toList,
      (Text.endsWith fileName ".py" = true → ['#'] <+: line) ∧
        (Text.endsWith fileName ".cs" = true → ['/', '/'] <+: line)) ∧
    Text.sourceLines whole.toList =
      Text.sourceLines comment.toList ++ [] :: Text.sourceLines content.toList ∧
    ∀ desk after : Desk,
      (writePlanned { package, fileName, text := .ok content }).run
          (desk.layered [.header header]) = (.ok (), after) ↔
        after.writer.layers = [.header header] ∧
          (writePlanned { package, fileName, text := .ok whole }).run (desk.layered []) =
            (.ok (), after.layered []) := by
  obtain ⟨areMarked, apart⟩ := Header.sourceLines_comment header fileName
  refine ⟨fun line isLine => ?_, ?_, fun desk after => ?_⟩
  · have isMarked := areMarked line isLine
    exact ⟨fun isPython => Header.marker_python isPython ▸ isMarked,
      fun isCSharp => Header.marker_csharp isCSharp ▸ isMarked⟩
  · rw [String.append_assoc, String.toList_append, apart, String.toList_append]
    exact congrArg _ (@Text.sourceLines_append [] (by simp) content.toList)
  · have announces (layers : List Layer) (areHeaders : layers.filter Layer.isHeader = layers) :
        (announce package fileName).run (desk.layered layers) = (.ok (), desk.layered layers) :=
      run_announce_of_muted (congrArg (fun layers => { desk.writer with layers }) areHeaders) _ _
    have header_only := announces [.header header] rfl
    have none := announces [] rfl
    rw [run_writePlanned_eq_ok_iff, run_writePlanned_eq_ok_iff]
    constructor
    · rintro ⟨opened, deposit, announced, deposits⟩
      cases header_only.symm.trans announced
      obtain ⟨isLayer, deposits⟩ := deposits_header_iff.mp deposits
      exact ⟨isLayer, _, deposit, none, deposits⟩
    · rintro ⟨isLayer, opened, deposit, announced, deposits⟩
      cases none.symm.trans announced
      exact ⟨_, deposit, header_only, deposits_header_iff.mpr ⟨isLayer, deposits⟩⟩

end Writing

end Typeloom
