import Mathlib.Data.List.TakeWhile
import Typeloom.Json.Writer
import Typeloom.Proofs.Json.Numerals
import Typeloom.Proofs.Python.Evaluation

/-!
# Literals without parts

The tokens of a quoted text, of an integer and of a binary number.  A text is quoted as JSON
quotes it, so that every code unit of its UTF-16 form is read back as one code point.
-/

namespace Typeloom

namespace Python

/-- Whether a character is a printable one of the ASCII range. -/
def IsPrintable (character : Char) : Prop :=
  32 ≤ character.toNat ∧ character.toNat < 127

instance (character : Char) : Decidable (IsPrintable character) :=
  inferInstanceAs (Decidable (_ ∧ _))

def PrintableText (text : List Char) : Prop :=
  ∀ character ∈ text, IsPrintable character

instance (text : List Char) : Decidable (PrintableText text) :=
  List.decidableBAll IsPrintable text

/-! ## Texts -/

/-- The code units of a character in UTF-16. -/
def unitsOf (character : Char) : List Nat :=
  if character.toNat < 0x10000 then [character.toNat]
  else
    let offset := character.toNat - 0x10000
    [0xD800 + offset / 0x400, 0xDC00 + offset % 0x400]

def units (text : String) : List Nat :=
  text.toList.flatMap unitsOf

theorem behind_behind (first second : List Nat) (length more : Nat) (body : List Nat × Nat) :
    behind first length (behind second more body) =
      behind (first ++ second) (length + more) body := by
  simp [behind, Nat.add_assoc]

section Body

variable {quotes rest : List Char}

theorem textBody?_escape {escaped : List Nat} {used : Nat}
    (opens : quotes.isPrefixOf ('\\' :: rest) = false)
    (isEscape : escape? rest = some (escaped, used)) :
    textBody? quotes ('\\' :: rest) =
      (textBody? quotes (rest.drop used)).map (behind escaped (1 + used)) := by
  rw [textBody?, opens, if_neg Bool.false_ne_true, if_pos rfl, isEscape]

theorem textBody?_character {character : Char}
    (opens : quotes.isPrefixOf (character :: rest) = false) (noEscape : character ≠ '\\')
    (goesOn : character = '\n' → quotes.length ≠ 1) :
    textBody? quotes (character :: rest) =
      (textBody? quotes rest).map (behind [character.toNat] 1) := by
  have noLineEnd : ¬(character = '\n' && quotes.length = 1) = true := by
    simpa using goesOn
  rw [textBody?, opens, if_neg Bool.false_ne_true, if_neg noEscape, if_neg noLineEnd]

end Body

theorem hexadecimalEscape?_hexadecimal {code : Nat} (isUnit : code < 0x10000) (rest : List Char) :
    hexadecimalEscape? 4 (Text.hexadecimal 4 code ++ rest) = some ([code], 5) := by
  have long : ¬(Text.hexadecimal 4 code ++ rest).length < 4 := by
    simp [Text.length_hexadecimal]
  have digits : (Text.hexadecimal 4 code ++ rest).take 4 = Text.hexadecimal 4 code :=
    List.take_left' (Text.length_hexadecimal 4 code)
  have small : ¬0x10FFFF < code := by omega
  rw [hexadecimalEscape?, if_neg long, digits, Text.ofHexadecimal?_hexadecimal,
    Nat.mod_eq_of_lt isUnit]
  simp [small]

theorem textBody?_unitText {code : Nat} (isUnit : code < 0x10000) (rest : List Char) :
    textBody? ['\"'] (Json.unitText code ++ rest) =
      (textBody? ['\"'] rest).map (behind [code] 6) := by
  have isEscape : escape? ('u' :: (Text.hexadecimal 4 code ++ rest)) = some ([code], 5) :=
    hexadecimalEscape?_hexadecimal isUnit rest
  have skipped : ('u' :: (Text.hexadecimal 4 code ++ rest)).drop 5 = rest :=
    List.drop_left' (Text.length_hexadecimal 4 code)
  rw [Json.unitText, List.cons_append, List.cons_append, textBody?_escape rfl isEscape, skipped]

theorem unitsOf_lt (character : Char) : ∀ unit ∈ unitsOf character, unit < 0x10000 := by
  intro unit isUnit
  have bounded : character.toNat < 0x110000 := by
    rcases character.valid with low | ⟨-, high⟩
    · exact Nat.lt_trans low (by decide)
    · exact high
  unfold unitsOf at isUnit
  split at isUnit
  · simpa [List.mem_singleton.mp isUnit]
  · simp only [List.mem_cons, List.not_mem_nil, or_false] at isUnit
    omega

theorem unitsOf_of_lt {character : Char} (isUnit : character.toNat < 0x10000) :
    unitsOf character = [character.toNat] :=
  if_pos isUnit

/-- How a character is written: as an escape of one letter, as it is, or as the escapes of its code
units. -/
inductive Written (character : Char) : List Char → Prop where
  | letter {letter : Char} (isPrintable : IsPrintable letter)
      (isEscape : ∀ rest, escape? (letter :: rest) = some (unitsOf character, 1)) :
      Written character ['\\', letter]
  | plain (isPrintable : IsPrintable character) (noQuote : character ≠ '\"')
      (noBackslash : character ≠ '\\') : Written character [character]
  | unit (isUnit : character.toNat < 0x10000) : Written character (Json.unitText character.toNat)
  | pair {high low : Nat} (areUnits : unitsOf character = [high, low]) :
      Written character (Json.unitText high ++ Json.unitText low)

theorem written_writeCharacter (character : Char) :
    Written character (Json.writeCharacter character) := by
  unfold Json.writeCharacter
  split_ifs with isQuote isBackslash isLineFeed isReturn isTab isFormFeed isBackspace isPlain isUnit
  · subst isQuote
    exact .letter (by decide) fun _ => rfl
  · subst isBackslash
    exact .letter (by decide) fun _ => rfl
  · subst isLineFeed
    exact .letter (by decide) fun _ => rfl
  · subst isReturn
    exact .letter (by decide) fun _ => rfl
  · subst isTab
    exact .letter (by decide) fun _ => rfl
  · refine .letter (by decide) fun _ => ?_
    rw [unitsOf_of_lt (by omega), isFormFeed]
    rfl
  · refine .letter (by decide) fun _ => ?_
    rw [unitsOf_of_lt (by omega), isBackspace]
    rfl
  · exact .plain (by simpa [IsPrintable] using isPlain) isQuote isBackslash
  · exact .unit isUnit
  · exact .pair (if_neg isUnit)

/-- A character within a quoted text is read back as its code units. -/
theorem Written.textBody?_append {character : Char} {written : List Char}
    (isWritten : Written character written) (rest : List Char) :
    textBody? ['\"'] (written ++ rest) =
      (textBody? ['\"'] rest).map (behind (unitsOf character) written.length) := by
  cases isWritten with
  | letter _ isEscape => exact textBody?_escape rfl (isEscape rest)
  | plain isPrintable noQuote noBackslash =>
      obtain ⟨low, high⟩ := isPrintable
      rw [unitsOf_of_lt (by omega)]
      refine textBody?_character (by simpa [List.isPrefixOf] using Ne.symm noQuote) noBackslash ?_
      rintro rfl
      exact absurd low (by decide)
  | unit isUnit =>
      rw [unitsOf_of_lt isUnit]
      exact textBody?_unitText isUnit rest
  | @pair high low areUnits =>
      have bounded := unitsOf_lt character
      rw [areUnits] at bounded ⊢
      rw [List.append_assoc, textBody?_unitText (bounded high (by simp)),
        textBody?_unitText (bounded low (by simp)), Option.map_map]
      congr 1
      funext body
      exact behind_behind _ _ 6 6 body

theorem textBody?_flatMap (content rest : List Char) :
    textBody? ['\"'] (content.flatMap Json.writeCharacter ++ '\"' :: rest) =
      some (content.flatMap unitsOf, (content.flatMap Json.writeCharacter).length + 1) := by
  induction content with
  | nil => simp [textBody?]
  | cons character content ih =>
      rw [List.flatMap_cons, List.append_assoc,
        (written_writeCharacter character).textBody?_append, ih]
      simp [behind, Nat.add_assoc]

theorem Written.exists_cons {character : Char} {written : List Char}
    (isWritten : Written character written) :
    ∃ first more, written = first :: more ∧ first ≠ '\"' := by
  cases isWritten with
  | letter => exact ⟨'\\', _, rfl, by decide⟩
  | plain _ noQuote => exact ⟨character, [], rfl, noQuote⟩
  | unit => exact ⟨'\\', _, rfl, by decide⟩
  | pair => exact ⟨'\\', _, rfl, by decide⟩

theorem tokens?_single {character : Char} {rest : List Char} {token : Token}
    (noGap : isGap character = false)
    (isToken : tokenAt? character rest = some (token, rest.length)) :
    tokens? (character :: rest) = some [token] := by
  rw [tokens?, noGap, if_neg Bool.false_ne_true, isToken]
  simp [tokens?]

theorem textToken?_flatMap (content : List Char) :
    textToken? '\"' (content.flatMap Json.writeCharacter ++ ['\"']) =
      some (.text (content.flatMap unitsOf),
        (content.flatMap Json.writeCharacter ++ ['\"']).length) := by
  have short : ['\"', '\"'].isPrefixOf (content.flatMap Json.writeCharacter ++ ['\"']) = false := by
    cases content with
    | nil => rfl
    | cons character content =>
        obtain ⟨first, more, begins, differs⟩ := (written_writeCharacter character).exists_cons
        simp [begins, List.isPrefixOf, Ne.symm differs]
  rw [textToken?, short, if_neg Bool.false_ne_true, textBody?_flatMap]
  simp

theorem tokens?_writeText (content : String) :
    tokens? (Json.writeText content) = some [.text (units content)] :=
  tokens?_single rfl (textToken?_flatMap content.toList)

/-! ## Integers -/

theorem numeralPart_of_isDigit {digits : List Char} (areDigits : ∀ digit ∈ digits, digit.isDigit)
    (afterMark : Bool) : numeralPart afterMark digits = digits := by
  induction digits generalizing afterMark with
  | nil => rfl
  | cons digit digits ih =>
      obtain ⟨isDigit, others⟩ := List.forall_mem_cons.mp areDigits
      have isPart : isNamePart digit = true := by
        simp [isNamePart, Char.isAlphanum, isDigit]
      simp [numeralPart, isPart, ih others]

theorem numeralValue?_decimal (value : Nat) :
    numeralValue? (Number.decimal value) = some (.int value) := by
  have areDigits : ∀ digit ∈ Number.decimal value, digit.isDigit :=
    fun _ => Number.isDigit_of_mem_decimal
  have whole : (Number.decimal value).takeWhile Char.isDigit = Number.decimal value :=
    List.takeWhile_eq_self_iff.mpr areDigits
  have nothing : (Number.decimal value).dropWhile Char.isDigit = [] :=
    List.dropWhile_eq_nil_iff.mpr areDigits
  have notEmpty : (Number.decimal value).isEmpty = false :=
    List.isEmpty_eq_false_iff.mpr (Number.decimal_ne_nil value)
  have noLeadingZero : ((Number.decimal value).head? = some '0' &&
      (Number.decimal value).any (· ≠ '0')) = false := by
    by_cases zero : value = 0
    · subst zero
      rfl
    · simp [mt Number.eq_zero_of_head?_decimal zero]
  unfold numeralValue?
  simp only [whole, nothing, notEmpty, Json.ofDigits_decimal]
  rw [noLeadingZero]
  rfl

theorem isGap_of_isDigit {digit : Char} (isDigit : digit.isDigit) : isGap digit = false := by
  have noDigits : [' ', '\t', '\x0c'].any Char.isDigit = false := by decide
  exact Bool.eq_false_iff.mpr fun isGap =>
    List.any_eq_false.mp noDigits digit (List.contains_iff_mem.mp isGap) isDigit

theorem tokenAt?_of_isDigit {digit : Char} (isDigit : digit.isDigit) (rest : List Char) :
    tokenAt? digit rest = (numeralValue? (digit :: numeralPart false rest)).map fun value =>
      (.numeral value, (numeralPart false rest).length) := by
  have noDigits : (symbols ++ ['\"', '\'']).any Char.isDigit = false := by decide
  have differs : digit ∉ symbols ++ ['\"', '\''] := fun occurs =>
    List.any_eq_false.mp noDigits digit occurs isDigit
  have noSymbol : symbols.contains digit = false := by
    simpa using mt (List.mem_append_left _) differs
  have noQuote : isQuote digit = false := by
    simpa [isQuote] using mt (List.mem_append_right symbols) differs
  rw [tokenAt?, noSymbol, noQuote, isDigit]
  rfl

theorem tokens?_decimal (value : Nat) :
    tokens? (Number.decimal value) = some [.numeral (.int value)] := by
  have areDigits : ∀ digit ∈ Number.decimal value, digit.isDigit :=
    fun _ => Number.isDigit_of_mem_decimal
  have isValue := numeralValue?_decimal value
  obtain ⟨digit, digits, isCons⟩ := List.exists_cons_of_ne_nil (Number.decimal_ne_nil value)
  rw [isCons] at areDigits isValue ⊢
  obtain ⟨isDigit, others⟩ := List.forall_mem_cons.mp areDigits
  refine tokens?_single (isGap_of_isDigit isDigit) ?_
  rw [tokenAt?_of_isDigit isDigit, numeralPart_of_isDigit others, isValue]
  rfl

/-! ## Printable characters -/

section Printable

variable {text : List Char}

theorem PrintableText.append (printable : PrintableText text) {rest : List Char}
    (printableRest : PrintableText rest) : PrintableText (text ++ rest) :=
  List.forall_mem_append.mpr ⟨printable, printableRest⟩

theorem PrintableText.cons (printable : PrintableText text) {character : Char}
    (isPrintable : IsPrintable character) : PrintableText (character :: text) :=
  List.forall_mem_cons.mpr ⟨isPrintable, printable⟩

theorem PrintableText.of_subset (printable : PrintableText text) {part : List Char}
    (subset : part ⊆ text) : PrintableText part :=
  fun character occurs => printable character (subset occurs)

end Printable

theorem isPrintable_of_isDigit {digit : Char} (isDigit : digit.isDigit) : IsPrintable digit := by
  simp only [Char.isDigit, Bool.and_eq_true, decide_eq_true_eq, ge_iff_le,
    UInt32.le_iff_toNat_le] at isDigit
  obtain ⟨low, high⟩ : 48 ≤ digit.toNat ∧ digit.toNat ≤ 57 := isDigit
  exact ⟨by omega, by omega⟩

theorem printableText_hexadecimal (width value : Nat) :
    PrintableText (Text.hexadecimal width value) := by
  induction width generalizing value with
  | zero => exact fun _ occurs => nomatch occurs
  | succ width ih =>
      have digits : ∀ value < 16, IsPrintable (Text.hexadecimalDigit value) := by decide
      exact (ih _).append (List.forall_mem_singleton.mpr (digits _ (Nat.mod_lt _ (by decide))))

theorem printableText_unitText (unit : Nat) : PrintableText (Json.unitText unit) :=
  ((printableText_hexadecimal 4 unit).cons (by decide)).cons (by decide)

theorem Written.printableText {character : Char} {written : List Char}
    (isWritten : Written character written) : PrintableText written := by
  cases isWritten with
  | letter isPrintable => exact .cons (List.forall_mem_singleton.mpr isPrintable) (by decide)
  | plain isPrintable => exact List.forall_mem_singleton.mpr isPrintable
  | unit => exact printableText_unitText _
  | pair => exact (printableText_unitText _).append (printableText_unitText _)

theorem printableText_writeText (content : String) : PrintableText (Json.writeText content) := by
  have body : PrintableText (content.toList.flatMap Json.writeCharacter) := by
    intro part occurs
    obtain ⟨character, -, isPart⟩ := List.mem_flatMap.mp occurs
    exact (written_writeCharacter character).printableText part isPart
  exact (body.cons (by decide)).append (by decide)

theorem printableText_of_isNumeralText {text : List Char} (isNumeral : Json.IsNumeralText text) :
    PrintableText text := by
  intro character occurs
  rcases Bool.or_eq_true_iff.mp (isNumeral character occurs) with isDigit | isMark
  · exact isPrintable_of_isDigit isDigit
  · have marks : PrintableText ['+', '-', '.', 'e', 'E'] := by decide
    exact marks character (List.contains_iff_mem.mp isMark)

theorem printableText_writeInteger (value : Int) :
    PrintableText (Number.writeInteger value).toList :=
  printableText_of_isNumeralText (Json.isNumeralText_writeInteger value)

theorem printableText_writeBinary (number : Binary64) :
    PrintableText (Number.writeBinary "inf" "nan" number).toList := by
  cases number with
  | notANumber => decide
  | infinite negative => cases negative <;> decide
  | finite negative mantissa exponent =>
      exact printableText_of_isNumeralText
        (Json.isNumeralText_writeBinary _ _ negative mantissa exponent)

end Python

end Typeloom
