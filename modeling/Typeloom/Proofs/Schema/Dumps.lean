import Typeloom.Proofs.Json.RoundTrip
import Typeloom.Proofs.Python.ReadBack
import Typeloom.Proofs.Schema.Loaded

/-!
# Dumps are read back

A dump is cut at the lines that stand in front of its documents.  No line of a document looks like
one of them: a line feed in a document is followed by a blank or by a bracket that closes, and every
other character is a printable one, whatever texts the document holds.  The documents have to be
such as can be read, which those of a forest are that has been loaded
(`Forest.readableDocuments_of_load`).
-/

namespace Typeloom

namespace Text

/-- The lines of a text, each with the character that ends it. -/
def closedLines (ends : Char → Bool) : List Char → List (List Char)
  | [] => []
  | character :: rest =>
      if ends character then [character] :: closedLines ends rest
      else consLine character (closedLines ends rest)

/-- Whether lines end at line feeds, and otherwise at most at characters that separate lines. -/
structure EndsLines (ends : Char → Bool) : Prop where
  lineFeed : ends '\n' = true
  onlyBreaks : ∀ character, ends character = true → isLineBreak character = true

section Lines

variable {ends : Char → Bool} {character : Char} {text : List Char}

theorem EndsLines.eq_false_of_isPrintable (endsLines : EndsLines ends)
    (isPrintable : Python.IsPrintable character) : ends character = false := by
  refine Bool.eq_false_iff.mpr (mt (endsLines.onlyBreaks character) ?_)
  unfold Python.IsPrintable at isPrintable
  simp only [isLineBreak, List.contains_eq_mem, List.mem_cons, List.not_mem_nil, or_false,
    decide_eq_true_eq]
  omega

theorem consLine_append {lines : List (List Char)} (nonempty : lines ≠ []) (character : Char)
    (more : List (List Char)) :
    consLine character (lines ++ more) = consLine character lines ++ more := by
  cases lines with
  | nil => exact absurd rfl nonempty
  | cons line lines => rfl

theorem flatten_consLine (character : Char) (lines : List (List Char)) :
    (consLine character lines).flatten = character :: lines.flatten := by
  cases lines <;> rfl

theorem tail_consLine (character : Char) (lines : List (List Char)) :
    (consLine character lines).tail = lines.tail := by
  cases lines <;> rfl

theorem flatten_closedLines (ends : Char → Bool) (text : List Char) :
    (closedLines ends text).flatten = text := by
  induction text with
  | nil => rfl
  | cons character text ih =>
      rw [closedLines]
      split
      · rw [List.flatten_cons, ih]
        rfl
      · rw [flatten_consLine, ih]

theorem exists_closedLines_cons (ends : Char → Bool) (character : Char) (text : List Char) :
    ∃ line lines, closedLines ends (character :: text) = (character :: line) :: lines := by
  rw [closedLines]
  split
  · exact ⟨_, _, rfl⟩
  · cases closedLines ends text <;> exact ⟨_, _, rfl⟩

/-- Behind the end of a line the lines are those of what follows. -/
theorem closedLines_append (isEnd : ends character = true) (text rest : List Char) :
    closedLines ends (text ++ [character] ++ rest) =
      closedLines ends (text ++ [character]) ++ closedLines ends rest := by
  induction text with
  | nil => simp [closedLines, isEnd]
  | cons other text ih =>
      rw [List.cons_append, List.cons_append, closedLines, closedLines, ih]
      split
      · rfl
      · have nonempty : closedLines ends (text ++ [character]) ≠ [] := by
          intro none
          simpa [none] using flatten_closedLines ends (text ++ [character])
        exact consLine_append nonempty _ _

/-- A text that goes on until its last character is one line. -/
theorem closedLines_single (isEnd : ends character = true)
    (goesOn : ∀ other ∈ text, ends other = false) :
    closedLines ends (text ++ [character]) = [text ++ [character]] := by
  induction text with
  | nil => simp [closedLines, isEnd]
  | cons other text ih =>
      obtain ⟨noEnd, goesOn⟩ := List.forall_mem_cons.mp goesOn
      rw [List.cons_append, closedLines, noEnd, if_neg Bool.false_ne_true, ih goesOn]
      rfl

end Lines

end Text

/-! ## The lines of a document -/

namespace Json

open Python (IsPrintable PrintableText)

/-- Whether all characters of a text are printable but for line feeds, and every line feed is
followed by a blank or by a bracket that closes. -/
inductive IsLaidOut : List Char → Prop where
  | nil : IsLaidOut []
  | printable {character : Char} {rest : List Char} (isPrintable : IsPrintable character)
      (laidOut : IsLaidOut rest) : IsLaidOut (character :: rest)
  | lineFeed {mark : Char} {rest : List Char} (isMark : mark ∈ [' ', ']', '\x7d'])
      (laidOut : IsLaidOut (mark :: rest)) : IsLaidOut ('\n' :: mark :: rest)

theorem IsLaidOut.append {text rest : List Char} (laidOut : IsLaidOut text)
    (laidOutRest : IsLaidOut rest) : IsLaidOut (text ++ rest) := by
  induction laidOut with
  | nil => exact laidOutRest
  | printable isPrintable _ ih => exact .printable isPrintable ih
  | lineFeed isMark _ ih => exact .lineFeed isMark ih

theorem isLaidOut_of_printableText {text : List Char} (printable : PrintableText text) :
    IsLaidOut text := by
  induction text with
  | nil => exact .nil
  | cons character text ih =>
      obtain ⟨isPrintable, areOthers⟩ := List.forall_mem_cons.mp printable
      exact .printable isPrintable (ih areOthers)

theorem printableText_blanks (count : Nat) : PrintableText (List.replicate count ' ') := by
  intro blank isBlank
  rw [List.eq_of_mem_replicate isBlank]
  decide

/-- A line break in front of an item or a member. -/
theorem isLaidOut_lineBreak (depth : Nat) : IsLaidOut (lineBreak (depth + 1)) :=
  .lineFeed (by decide) (isLaidOut_of_printableText (printableText_blanks (2 * depth + 2)))

/-- A line break in front of a bracket that closes. -/
theorem isLaidOut_closing (depth : Nat) {bracket : Char} (isBracket : bracket ∈ [']', '\x7d']) :
    IsLaidOut (lineBreak depth ++ [bracket]) := by
  have isPrintable : PrintableText [']', '\x7d'] := by decide
  cases depth with
  | zero =>
      exact .lineFeed (List.mem_cons_of_mem _ isBracket)
        (.printable (isPrintable bracket isBracket) .nil)
  | succ depth =>
      exact (isLaidOut_lineBreak depth).append (.printable (isPrintable bracket isBracket) .nil)

theorem printableText_writeScalar (value : Json) : PrintableText (writeScalar value) := by
  cases value with
  | null => decide
  | bool value => cases value <;> decide
  | integer value => exact Python.printableText_writeInteger value
  | number value =>
      cases value with
      | finite negative mantissa exponent =>
          exact Python.printableText_of_isNumeralText
            (isNumeralText_writeBinary _ _ negative mantissa exponent)
      | infinite negative => cases negative <;> decide
      | notANumber => decide
  | text value => exact Python.printableText_writeText value
  | array => exact (by decide : PrintableText ['[', ']'])
  | object => exact (by decide : PrintableText ['\x7b', '\x7d'])

theorem isLaidOut_member (depth : Nat) (key : String) {text : List Char}
    (laidOut : IsLaidOut text) :
    IsLaidOut (lineBreak (depth + 1) ++ writeText key ++ [':', ' '] ++ text) :=
  (((isLaidOut_lineBreak depth).append
    (isLaidOut_of_printableText (Python.printableText_writeText key))).append
      (isLaidOut_of_printableText (by decide))).append laidOut

mutual

theorem isLaidOut_indented (depth : Nat) : (value : Json) → IsLaidOut (indented depth value)
  | .array [] => isLaidOut_of_printableText (by decide : PrintableText ['[', ']'])
  | .array (item :: items) => by
      have inside := (isLaidOut_indentedItems depth (item :: items)).append
        (isLaidOut_closing depth (by decide : ']' ∈ [']', '\x7d']))
      rw [← List.append_assoc] at inside
      exact .printable (by decide) inside
  | .object [] => isLaidOut_of_printableText (by decide : PrintableText ['\x7b', '\x7d'])
  | .object (member :: members) => by
      have inside := (isLaidOut_indentedMembers depth (member :: members)).append
        (isLaidOut_closing depth (by decide : '\x7d' ∈ [']', '\x7d']))
      rw [← List.append_assoc] at inside
      exact .printable (by decide) inside
  | .null => isLaidOut_of_printableText (printableText_writeScalar .null)
  | .bool value => isLaidOut_of_printableText (printableText_writeScalar (.bool value))
  | .integer value => isLaidOut_of_printableText (printableText_writeScalar (.integer value))
  | .number value => isLaidOut_of_printableText (printableText_writeScalar (.number value))
  | .text value => isLaidOut_of_printableText (printableText_writeScalar (.text value))

theorem isLaidOut_indentedItems (depth : Nat) :
    (items : List Json) → IsLaidOut (indentedItems (depth + 1) items)
  | [] => .nil
  | [item] => (isLaidOut_lineBreak depth).append (isLaidOut_indented (depth + 1) item)
  | item :: next :: rest =>
      (((isLaidOut_lineBreak depth).append (isLaidOut_indented (depth + 1) item)).append
        (isLaidOut_of_printableText (by decide))).append
          (isLaidOut_indentedItems depth (next :: rest))

theorem isLaidOut_indentedMembers (depth : Nat) :
    (members : List (String × Json)) → IsLaidOut (indentedMembers (depth + 1) members)
  | [] => .nil
  | [(key, value)] => isLaidOut_member depth key (isLaidOut_indented (depth + 1) value)
  | (key, value) :: next :: rest =>
      ((isLaidOut_member depth key (isLaidOut_indented (depth + 1) value)).append
        (isLaidOut_of_printableText (by decide))).append
          (isLaidOut_indentedMembers depth (next :: rest))

end

end Json

namespace Forest

/-- What a line in front of a document begins with. -/
def dumpMark : List Char :=
  ['-', '-', '-', '-', ' ']

/-- A line in front of what has been cut: in front of a document, the line gives its address. -/
def cutLine (ends : Char → Bool) (line : List Char) (cut : List Char × List (String × String)) :
    List Char × List (String × String) :=
  if dumpMark.isPrefixOf line then
    ([], (String.ofList ((line.drop dumpMark.length).takeWhile fun character => !ends character),
      String.ofList cut.1) :: cut.2)
  else (line ++ cut.1, cut.2)

/-- A dump that is cut at the lines in front of documents: what there is in front of the first one,
and for each of them the address and what follows it. -/
def cutDump (ends : Char → Bool) (text : String) : List Char × List (String × String) :=
  (Text.closedLines ends text.toList).foldr (cutLine ends) ([], [])

variable {ends : Char → Bool}

/-- Lines in front of which no document begins. -/
theorem foldr_cutLine {lines : List (List Char)} (noMarks : ∀ line ∈ lines, ¬dumpMark <+: line)
    (cut : List Char × List (String × String)) :
    lines.foldr (cutLine ends) cut = (lines.flatten ++ cut.1, cut.2) := by
  induction lines with
  | nil => rfl
  | cons line lines ih =>
      obtain ⟨noMark, noMarks⟩ := List.forall_mem_cons.mp noMarks
      rw [List.foldr_cons, ih noMarks, cutLine, if_neg (mt List.isPrefixOf_iff_prefix.mp noMark),
        List.flatten_cons, List.append_assoc]

/-- The line in front of a document. -/
theorem cutLine_mark (endsLines : Text.EndsLines ends) {systemId : String}
    (noEnd : ∀ character ∈ systemId.toList, ends character = false)
    (cut : List Char × List (String × String)) :
    cutLine ends (dumpMark ++ systemId.toList ++ ['\n']) cut =
      ([], (systemId, String.ofList cut.1) :: cut.2) := by
  have isAddress :
      (systemId.toList ++ ['\n']).takeWhile (fun character => !ends character) =
        systemId.toList := by
    rw [List.takeWhile_append_of_pos fun character occurs => by rw [noEnd character occurs]; rfl,
      List.takeWhile_cons_of_neg (by rw [endsLines.lineFeed]; decide), List.append_nil]
  rw [cutLine, List.append_assoc,
    if_pos (List.isPrefixOf_iff_prefix.mpr (List.prefix_append _ _)), List.drop_left, isAddress,
    String.ofList_toList]

theorem noMark_cons {character : Char} (differs : character ≠ '-') (line : List Char) :
    ¬dumpMark <+: character :: line :=
  fun begins => differs (List.cons_prefix_cons.mp begins).1.symm

theorem noMark_of_isLaidOut (endsLines : Text.EndsLines ends) {text : List Char}
    (laidOut : Json.IsLaidOut text) :
    ∀ line ∈ (Text.closedLines ends (text ++ ['\n'])).tail, ¬dumpMark <+: line := by
  induction laidOut with
  | nil => simp [Text.closedLines, endsLines.lineFeed]
  | @printable character rest isPrintable _ ih =>
      rwa [List.cons_append, Text.closedLines, endsLines.eq_false_of_isPrintable isPrintable,
        if_neg Bool.false_ne_true, Text.tail_consLine]
  | @lineFeed mark rest isMark _ ih =>
      have differs : mark ≠ '-' := fun isDash => absurd (isDash ▸ isMark) (by decide)
      obtain ⟨line, lines, areLines⟩ :=
        Text.exists_closedLines_cons ends mark (rest ++ ['\n'])
      rw [List.cons_append, areLines] at ih
      rw [List.cons_append, List.cons_append, Text.closedLines, endsLines.lineFeed, if_pos rfl,
        areLines]
      exact List.forall_mem_cons.mpr ⟨noMark_cons differs line, ih⟩

/-- What a document is written as. -/
def documentText (members : Json.Members) : List Char :=
  Json.indented 0 (.object members) ++ ['\n']

theorem exists_documentText_cons (members : Json.Members) :
    ∃ rest, documentText members = '\x7b' :: rest := by
  cases members <;> exact ⟨_, rfl⟩

/-- No line of a document looks like a line in front of one. -/
theorem noMark_of_mem_closedLines (endsLines : Text.EndsLines ends)
    (members : Json.Members) :
    ∀ line ∈ Text.closedLines ends (documentText members), ¬dumpMark <+: line := by
  have others : ∀ line ∈ (Text.closedLines ends (documentText members)).tail, ¬dumpMark <+: line :=
    noMark_of_isLaidOut endsLines (Json.isLaidOut_indented 0 (.object members))
  obtain ⟨rest, isObject⟩ := exists_documentText_cons members
  obtain ⟨line, lines, areLines⟩ := Text.exists_closedLines_cons ends '\x7b' rest
  rw [isObject, areLines] at others ⊢
  exact List.forall_mem_cons.mpr ⟨noMark_cons (by decide) line, others⟩

/-- What a document is written as is read back. -/
theorem read_documentText {members : Json.Members} (readable : (Json.object members).IsReadable)
    (readsBack : ∀ number ∈ (Json.object members).numbers,
      number.isFinite → Json.ReadsBack number) :
    Json.read (String.ofList (documentText members)) = .ok (.object members) := by
  obtain ⟨rest, isObject⟩ := exists_documentText_cons members
  have noMark : (documentText members).head? ≠ some Json.byteOrderMark := by
    rw [isObject, List.head?_cons]
    decide
  have reads : Json.readCharacters (documentText members) = .ok (.object members) :=
    Json.readCharacters_indented readable readsBack (List.forall_mem_singleton.mpr rfl)
  rw [Json.read, Json.readSettled, String.toList_ofList, if_neg noMark, reads]

theorem toList_dumpDocument (systemId : String) (members : Json.Members) :
    (dumpDocument systemId members).toList =
      dumpMark ++ systemId.toList ++ ['\n'] ++ documentText members := by
  simp [dumpDocument, dumpMark, documentText, Json.writeIndented]

/-- The lines of a document and the line in front of it. -/
theorem closedLines_dumpDocument (endsLines : Text.EndsLines ends)
    {systemId : String} (noEnd : ∀ character ∈ systemId.toList, ends character = false)
    (members : Json.Members) (rest : List Char) :
    Text.closedLines ends ((dumpDocument systemId members).toList ++ rest) =
      (dumpMark ++ systemId.toList ++ ['\n']) :: (Text.closedLines ends (documentText members) ++
        Text.closedLines ends rest) := by
  have goesOn : ∀ character ∈ dumpMark ++ systemId.toList, ends character = false := by
    have printable : Python.PrintableText dumpMark := by decide
    intro character occurs
    rcases List.mem_append.mp occurs with inMark | inAddress
    · exact endsLines.eq_false_of_isPrintable (printable character inMark)
    · exact noEnd character inAddress
  rw [toList_dumpDocument, List.append_assoc (_ ++ ['\n']),
    Text.closedLines_append endsLines.lineFeed, Text.closedLines_single endsLines.lineFeed goesOn,
    documentText, Text.closedLines_append endsLines.lineFeed]
  rfl

theorem cutDump_texts (endsLines : Text.EndsLines ends)
    {forest : Forest}
    (noEnds : ∀ systemId ∈ Table.keys forest.documents,
      ∀ character ∈ systemId.toList, ends character = false) :
    cutDump ends forest.dump =
      ([], forest.documents.map fun (systemId, members) =>
        (systemId, String.ofList (documentText members))) := by
  obtain ⟨documents, roots⟩ := forest
  dsimp only at noEnds
  rw [cutDump, dump, String.toList_join]
  dsimp only
  induction documents with
  | nil => rfl
  | cons document documents ih =>
      obtain ⟨systemId, members⟩ := document
      obtain ⟨noEnd, noEnds⟩ := List.forall_mem_cons.mp noEnds
      rw [List.map_cons, List.flatMap_cons, closedLines_dumpDocument endsLines noEnd,
        List.foldr_cons, List.foldr_append, ih noEnds,
        foldr_cutLine (noMark_of_mem_closedLines endsLines members),
        cutLine_mark endsLines noEnd, List.append_nil, Text.flatten_closedLines]
      rfl

/-- What is cut from a dump are the documents with their addresses, in order, and the text of each
document is read back as the document.  Whatever texts a document holds, none of its lines looks
like a line in front of a document. -/
theorem cutDump_dump {forest : Forest} (endsLines : Text.EndsLines ends)
    (noEnds : ∀ systemId ∈ Table.keys forest.documents,
      ∀ character ∈ systemId.toList, ends character = false)
    (readable : ReadableDocuments forest.documents)
    (readsBack : ∀ members ∈ Table.values forest.documents,
      ∀ number ∈ (Json.object members).numbers, number.isFinite → Json.ReadsBack number) :
    (cutDump ends forest.dump).1 = [] ∧
      (cutDump ends forest.dump).2.map (fun (systemId, text) => (systemId, Json.read text)) =
        forest.documents.map (fun (systemId, members) => (systemId, .ok (.object members))) ∧
      ∀ members, ∀ line ∈ Text.closedLines ends (documentText members), ¬dumpMark <+: line := by
  have texts := cutDump_texts endsLines noEnds
  refine ⟨congrArg Prod.fst texts, ?_, noMark_of_mem_closedLines endsLines⟩
  rw [texts, List.map_map]
  refine List.map_congr_left fun (systemId, members) occurs => ?_
  have isValue : members ∈ Table.values forest.documents :=
    List.mem_map_of_mem occurs
  exact congrArg (Prod.mk systemId)
    (read_documentText (readable.2 members isValue) (readsBack members isValue))

/-! ## A text that looks like a dump -/

def misleading : Json.Members :=
  [("\n---- file:///c", .text "\n---- file:///d\u2028---- file:///e"),
    ("numbers", .array [.number Python.half, .number (.infinite true), .integer (-7)])]

def misleadingForest : Forest :=
  { documents := [("file:///a", misleading), ("file:///b", [])], roots := ["file:///a"] }

theorem readsBack_half : Json.ReadsBack Python.half := by
  have written : Number.writeBinary "Infinity" "NaN" Python.half = "0.5" := by
    decide +kernel
  have nearest : Binary64.ofDecimal false 5 1 (-1) = Python.half := by
    decide +kernel
  have isValue : Json.numeralToken? "0.5".toList =
      some (.scalar (.number Python.half), "0.5".toList.length) := by
    rw [← nearest]
    rfl
  have isToken : Json.tokens 0 ("0.5".toList ++ []) = _ :=
    Json.tokens_numeral isValue (by simp [Json.IsDelimited]) 0
  rw [Json.ReadsBack, written, Json.readCharacters, ← List.append_nil "0.5".toList, isToken,
    Json.tokens]
  rfl

theorem readableDocuments_misleadingForest : ReadableDocuments misleadingForest.documents := by
  refine ⟨by decide, List.forall_mem_cons.mpr ⟨.object (by decide) ?_,
    List.forall_mem_singleton.mpr (.object (by decide) (by simp [Table.values]))⟩⟩
  refine List.forall_mem_cons.mpr ⟨.text _, List.forall_mem_singleton.mpr (.array ?_)⟩
  intro item occurs
  simp only [List.mem_cons, List.not_mem_nil, or_false] at occurs
  rcases occurs with rfl | rfl | rfl
  · exact .number _
  · exact .number _
  · exact .integer (by decide)

/-- A dump is cut wherever a text has a line break, and none of what its texts look like misleads
whoever reads it. -/
theorem cutDump_misleadingForest :
    (cutDump Text.isLineBreak misleadingForest.dump).1 = [] ∧
      (cutDump Text.isLineBreak misleadingForest.dump).2.map
          (fun (systemId, text) => (systemId, Json.read text)) =
        [("file:///a", .ok (.object misleading)), ("file:///b", .ok (.object []))] := by
  have readsBack : ∀ members ∈ Table.values misleadingForest.documents,
      ∀ number ∈ (Json.object members).numbers, number.isFinite → Json.ReadsBack number := by
    refine List.forall_mem_cons.mpr ⟨List.forall_mem_cons.mpr ⟨fun _ => readsBack_half,
      List.forall_mem_singleton.mpr fun isFinite => ?_⟩, List.forall_mem_singleton.mpr ?_⟩
    · cases isFinite
    · exact fun _ occurs => absurd occurs List.not_mem_nil
  have noBreaks : ∀ systemId ∈ Table.keys misleadingForest.documents,
      systemId.toList.any Text.isLineBreak = false := by
    decide
  have noEnds : ∀ systemId ∈ Table.keys misleadingForest.documents,
      ∀ character ∈ systemId.toList, Text.isLineBreak character = false :=
    fun systemId isKey character occurs =>
      Bool.eq_false_iff.mpr (List.any_eq_false.mp (noBreaks systemId isKey) character occurs)
  obtain ⟨noFront, sections, -⟩ :=
    cutDump_dump ⟨rfl, fun _ => id⟩ noEnds readableDocuments_misleadingForest readsBack
  exact ⟨noFront, sections⟩

end Forest

end Typeloom
