import Typeloom.Output.Writer

/-!
# Contents of written files

A source file holds its texts as bytes of its character set, behind a byte order mark where there
is one, as far as the texts can be encoded.
-/

namespace Typeloom

namespace Encoding

variable {charset : Charset}

/-- A text can be encoded if both of its parts can. -/
theorem encode?_append (charset : Charset) (first rest : String) :
    encode? charset (first ++ rest) =
      (encode? charset first).bind fun bytes => (encode? charset rest).map (bytes ++ ·) := by
  have chained (byte? : Char → Option UInt8) :
      (first ++ rest).toList.mapM byte? = (first.toList.mapM byte?).bind fun bytes =>
        (rest.toList.mapM byte?).map (bytes ++ ·) := by
    rw [String.toList_append, List.mapM_append]
    cases first.toList.mapM byte? <;> cases rest.toList.mapM byte? <;> rfl
  cases charset with
  | ascii => exact chained _
  | latin1 => exact chained _
  | windows1252 => exact chained _
  | _ => simp [encode?, utf8, utf8Characters, utf16, utf32]

end Encoding

namespace OpenSource

variable {source after : OpenSource} {text : String} {texts rest : List String}

/-- The bytes before those of the next text. -/
def start (source : OpenSource) : List UInt8 :=
  source.written.getD (Encoding.startMark source.destination.isSeekable source.charset)

theorem write?_eq_some_iff :
    source.write? text = some after ↔
      ∃ bytes, Encoding.encode? source.charset text = some bytes ∧
        after = { source with written := some (source.start ++ bytes) } := by
  rw [write?, Option.map_eq_some_iff]
  exact exists_congr fun bytes => and_congr_right fun _ => eq_comm

/-- What is written to a file does not change where it goes. -/
theorem writeAll_destination (source : OpenSource) (texts : List String) :
    (source.writeAll texts).1.destination = source.destination := by
  induction texts generalizing source with
  | nil => rfl
  | cons text texts ih =>
      rw [writeAll]
      cases isWritten : source.write? text with
      | none => rfl
      | some next =>
          obtain ⟨bytes, -, rfl⟩ := write?_eq_some_iff.mp isWritten
          exact ih _

theorem writeAll_append (source : OpenSource) (texts rest : List String) :
    source.writeAll (texts ++ rest) =
      match source.writeAll texts with
      | (after, true) => after.writeAll rest
      | (after, false) => (after, false) := by
  induction texts generalizing source with
  | nil => rfl
  | cons text texts ih =>
      rw [List.cons_append, writeAll, writeAll]
      cases source.write? text with
      | none => rfl
      | some next => exact ih next

/-- What a file holds once texts are written, if there were any. -/
theorem writeAll_complete (complete : source.writeAll (text :: texts) = (after, true)) :
    ∃ bytes, Encoding.encode? source.charset (String.join (text :: texts)) = some bytes ∧
      after = { source with written := some (source.start ++ bytes) } := by
  induction texts generalizing source text with
  | nil =>
      rw [writeAll] at complete
      cases isWritten : source.write? text with
      | none =>
          rw [isWritten] at complete
          cases complete
      | some next =>
          rw [isWritten] at complete
          cases complete
          simpa [String.join] using write?_eq_some_iff.mp isWritten
  | cons second texts ih =>
      rw [writeAll] at complete
      cases isWritten : source.write? text with
      | none =>
          rw [isWritten] at complete
          cases complete
      | some next =>
          rw [isWritten] at complete
          obtain ⟨first, isFirst, rfl⟩ := write?_eq_some_iff.mp isWritten
          obtain ⟨bytes, areEncoded, rfl⟩ := ih complete
          refine ⟨first ++ bytes, ?_, ?_⟩
          · rw [String.join_cons, Encoding.encode?_append, isFirst]
            exact congrArg (Option.map (first ++ ·)) areEncoded
          · simp [start]

/-- A text that cannot be encoded ends the writing, with what was written before it. -/
theorem writeAll_incomplete (incomplete : source.writeAll texts = (after, false)) :
    ∃ done text rest, texts = done ++ text :: rest ∧ source.writeAll done = (after, true) ∧
      Encoding.encode? source.charset text = none := by
  induction texts generalizing source with
  | nil => cases incomplete
  | cons text texts ih =>
      rw [writeAll] at incomplete
      cases isWritten : source.write? text with
      | none =>
          rw [isWritten] at incomplete
          cases incomplete
          exact ⟨[], text, texts, rfl, rfl, by simpa [write?] using isWritten⟩
      | some next =>
          rw [isWritten] at incomplete
          obtain ⟨done, last, rest, rfl, isDone, notEncoded⟩ := ih incomplete
          obtain ⟨_, -, rfl⟩ := write?_eq_some_iff.mp isWritten
          refine ⟨text :: done, last, rest, rfl, ?_, notEncoded⟩
          rw [writeAll, isWritten]
          exact isDone

end OpenSource

namespace Writing

variable {destination : Destination} {encoding text : String} {headers texts : List String}
  {bytes : List UInt8} {fault : Fault}

/-! ## Whole files -/

/-- The bytes of a file that holds texts, or the fault that they cannot be encoded. -/
def encodedFile (seekable : Bool) (encoding : String) (texts : List String) :
    Except Fault (List UInt8) :=
  match charsetNamed encoding with
  | .error fault => .error fault
  | .ok charset =>
      match Encoding.encode? charset (String.join texts) with
      | none => .error .unencodable
      | some bytes => .ok (Encoding.startMark seekable charset ++ bytes)

/-- Bytes are those of the first texts of a file, or there are none at all. -/
def IsStart (seekable : Bool) (encoding : String) (texts : List String) (bytes : List UInt8) :
    Prop :=
  bytes = [] ∨ ∃ done, done <+: texts ∧ encodedFile seekable encoding done = .ok bytes

/-- How far a file gets: what it holds when it is closed. -/
inductive Portion where
  /-- The file is closed before its text is written. -/
  | abandoned (bytes : List UInt8) (fault : Fault)
  /-- The file is closed after its text, or after its headers if the text cannot be encoded. -/
  | finished (bytes : List UInt8) (complete : Bool)
deriving DecidableEq, Repr

/-- How far a file with headers and a text gets. -/
def portion (destination : Destination) (encoding : String) (headers : List String)
    (text : String) : Portion :=
  match charsetNamed encoding with
  | .error fault => .abandoned [] fault
  | .ok charset =>
      match OpenSource.writeAll { destination, charset } headers with
      | (source, false) => .abandoned source.bytes .unencodable
      | (source, true) => .finished (source.writeAll [text]).1.bytes (source.writeAll [text]).2

/-- That a file cannot be encoded is no error of the system. -/
theorem ne_system_of_encodedFile {seekable : Bool}
    (notEncoded : encodedFile seekable encoding texts = .error fault) (error : SystemError) :
    fault ≠ .system error := by
  unfold encodedFile charsetNamed at notEncoded
  split at notEncoded
  · rename_i isMissing
    split at isMissing
    · cases isMissing
      cases notEncoded
      exact nofun
    · split at isMissing
      · cases isMissing
      · cases isMissing
        cases notEncoded
        exact nofun
  · split at notEncoded
    · cases notEncoded
      exact nofun
    · cases notEncoded

/-- A file for which there is a character set holds what was written to it. -/
theorem encodedFile_of_writeAll {charset : Encoding.Charset} {source : OpenSource}
    (isCharset : charsetNamed encoding = .ok charset)
    (complete : OpenSource.writeAll { destination, charset } texts = (source, true))
    (someText : texts ≠ []) :
    encodedFile destination.isSeekable encoding texts = .ok source.bytes := by
  obtain ⟨text, rest, rfl⟩ := List.exists_cons_of_ne_nil someText
  obtain ⟨bytes, isEncoded, rfl⟩ := OpenSource.writeAll_complete complete
  rw [encodedFile, isCharset]
  dsimp only at isEncoded ⊢
  rw [isEncoded]
  rfl

/-- What was written before a text that cannot be encoded is a start of the file. -/
theorem encodedFile_of_incomplete {charset : Encoding.Charset} {source : OpenSource}
    (isCharset : charsetNamed encoding = .ok charset)
    (incomplete : OpenSource.writeAll { destination, charset } texts = (source, false)) :
    encodedFile destination.isSeekable encoding texts = .error .unencodable ∧
      ∃ done text rest, texts = done ++ text :: rest ∧
        IsStart destination.isSeekable encoding done source.bytes := by
  obtain ⟨done, text, rest, rfl, isDone, notEncoded⟩ := OpenSource.writeAll_incomplete incomplete
  refine ⟨?_, done, text, rest, rfl, ?_⟩
  · have notJoined : Encoding.encode? charset (String.join (done ++ text :: rest)) = none := by
      rw [String.join_append, String.join_cons, Encoding.encode?_append, Encoding.encode?_append,
        show Encoding.encode? charset text = none from notEncoded]
      cases Encoding.encode? charset (String.join done) <;> rfl
    rw [encodedFile, isCharset]
    dsimp only
    rw [notJoined]
  · cases done with
    | nil =>
        cases isDone
        exact Or.inl rfl
    | cons first others =>
        exact Or.inr ⟨_, List.prefix_rfl, encodedFile_of_writeAll isCharset isDone (by simp)⟩

/-- A file gets to its end if it can be encoded.  Otherwise it holds a start of its headers. -/
theorem portion_cases (destination : Destination) (encoding : String) (headers : List String)
    (text : String) :
    (∃ bytes, encodedFile destination.isSeekable encoding (headers ++ [text]) = .ok bytes ∧
      portion destination encoding headers text = .finished bytes true) ∨
    ∃ bytes fault,
      encodedFile destination.isSeekable encoding (headers ++ [text]) = .error fault ∧
      IsStart destination.isSeekable encoding headers bytes ∧
      (portion destination encoding headers text = .abandoned bytes fault ∨
        fault = .unencodable ∧
          portion destination encoding headers text = .finished bytes false) := by
  unfold portion
  cases isCharset : charsetNamed encoding with
  | error fault =>
      refine Or.inr ⟨[], fault, ?_, Or.inl rfl, Or.inl rfl⟩
      rw [encodedFile, isCharset]
  | ok charset =>
      dsimp only
      have both := OpenSource.writeAll_append { destination, charset } headers [text]
      rcases wrote : OpenSource.writeAll { destination, charset } headers with ⟨source, - | -⟩
      · rw [wrote] at both
        obtain ⟨-, done, last, rest, rfl, isStart⟩ := encodedFile_of_incomplete isCharset wrote
        refine Or.inr ⟨source.bytes, .unencodable,
          (encodedFile_of_incomplete isCharset both).1, ?_, Or.inl rfl⟩
        exact isStart.imp_right fun ⟨first, isPrefix, isEncoded⟩ =>
          ⟨first, isPrefix.trans (List.prefix_append _ _), isEncoded⟩
      · rw [wrote] at both
        dsimp only at both ⊢
        rcases wroteText : source.writeAll [text] with ⟨last, - | -⟩
        · rw [wroteText] at both
          obtain ⟨notEncoded, done, unwritten, rest, isSplit, isStart⟩ :=
            encodedFile_of_incomplete isCharset both
          refine Or.inr ⟨last.bytes, .unencodable, notEncoded, ?_, Or.inr ⟨rfl, rfl⟩⟩
          have isBefore : done <+: headers := by
            have isIn : done <+: headers ++ [text] := isSplit ▸ List.prefix_append _ _
            refine List.prefix_of_prefix_length_le isIn (List.prefix_append _ _) ?_
            have lengths := congrArg List.length isSplit
            simp only [List.length_append, List.length_cons, List.length_nil] at lengths
            omega
          exact isStart.imp_right fun ⟨first, isPrefix, isEncoded⟩ =>
            ⟨first, isPrefix.trans isBefore, isEncoded⟩
        · rw [wroteText] at both
          exact Or.inl ⟨last.bytes, encodedFile_of_writeAll isCharset both (by simp), rfl⟩

end Writing

end Typeloom
