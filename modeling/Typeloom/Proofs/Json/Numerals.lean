import Mathlib.Algebra.Group.Nat.Defs
import Mathlib.Data.List.TakeWhile
import Mathlib.Tactic.SplitIfs
import Typeloom.Json.Reader

/-!
# Numerals within a text

A numeral is read in the same way whatever stands behind it, as long as that does not begin with a
character that could belong to it.
-/

namespace Typeloom

/-- Whether a number is neither infinite nor what is not a number. -/
def Binary64.isFinite : Binary64 → Bool
  | finite _ _ _ => true
  | _ => false

namespace Number

/-- A number has at most as many digits as the power of ten that it stays below. -/
theorem length_decimal_le_iff {value length : Nat} (positive : 0 < length) :
    (decimal value).length ≤ length ↔ value < 10 ^ length :=
  Nat.length_toDigits_le_iff (by decide) positive

theorem length_decimal_pow (exponent : Nat) :
    (decimal (10 ^ exponent)).length = exponent + 1 := by
  have notMore := (length_decimal_le_iff (Nat.succ_pos exponent)).mpr
    (Nat.pow_lt_pow_right (by decide) (Nat.lt_succ_self exponent))
  refine Nat.le_antisymm notMore (Nat.lt_of_not_le fun shorter => ?_)
  have positive : 0 < exponent :=
    Nat.lt_of_lt_of_le (List.length_pos_iff.mpr (decimal_ne_nil _)) shorter
  exact Nat.lt_irrefl _ ((length_decimal_le_iff positive).mp shorter)

end Number

namespace Json

def isNumeralCharacter (character : Char) : Bool :=
  character.isDigit || ['+', '-', '.', 'e', 'E'].contains character

/-- Whether a text does not go on a numeral that stands in front of it. -/
def IsDelimited (rest : List Char) : Prop :=
  ∀ character ∈ rest.head?, isNumeralCharacter character = false

variable {text rest : List Char}

theorem isDelimited_nil : IsDelimited [] :=
  fun _ occurs => nomatch occurs

theorem isDelimited_cons {character : Char} (differs : isNumeralCharacter character = false)
    (rest : List Char) : IsDelimited (character :: rest) := by
  rintro _ ⟨⟩
  exact differs

theorem IsDelimited.head {character : Char} (delimited : IsDelimited (character :: rest)) :
    character.isDigit = false ∧ character ∉ ['+', '-', '.', 'e', 'E'] := by
  have differs := delimited character rfl
  simpa [isNumeralCharacter] using differs

/-! ## Digits -/

theorem isDigit_of_mem_wholeDigits {text : List Char} {digit : Char}
    (occurs : digit ∈ wholeDigits text) : digit.isDigit := by
  unfold wholeDigits at occurs
  split at occurs
  · rw [List.mem_singleton.mp occurs]
    decide
  · exact List.mem_takeWhile_imp occurs

/-- The value of digits stays below the power of ten with that many zeros. -/
theorem ofDigits_lt {digits : List Char} (areDigits : ∀ digit ∈ digits, digit.isDigit) :
    ofDigits digits < 10 ^ digits.length := by
  have grows (value : Nat) : digits.foldl
      (fun value digit => value * 10 + (digit.toNat - '0'.toNat)) value <
        (value + 1) * 10 ^ digits.length := by
    induction digits generalizing value with
    | nil => simp
    | cons digit digits ih =>
        obtain ⟨isDigit, areOthers⟩ := List.forall_mem_cons.mp areDigits
        have small : digit.toNat - '0'.toNat < 10 := by
          simp only [Char.isDigit, Bool.and_eq_true, decide_eq_true_eq, ge_iff_le,
            UInt32.le_iff_toNat_le] at isDigit
          obtain ⟨-, high⟩ : 48 ≤ digit.toNat ∧ digit.toNat ≤ 57 := isDigit
          exact Nat.lt_succ_of_le (Nat.sub_le_sub_right high 48)
        rw [List.foldl_cons, List.length_cons, Nat.pow_succ', ← Nat.mul_assoc]
        refine Nat.lt_of_lt_of_le (ih areOthers _) (Nat.mul_le_mul_right _ ?_)
        omega
  simpa [ofDigits] using grows 0

/-! ## The parts of a numeral -/

section Parts

theorem length_takeWhile_le (text : List Char) :
    (text.takeWhile Char.isDigit).length ≤ text.length :=
  (List.takeWhile_prefix _).length_le

theorem wholeDigits_isPrefix (text : List Char) : wholeDigits text <+: text := by
  unfold wholeDigits
  split
  · exact List.prefix_append ['0'] _
  · exact List.takeWhile_prefix _

theorem length_fraction_le (text : List Char) :
    (if (fractionDigits text).isEmpty then 0 else 1 + (fractionDigits text).length) ≤
      text.length := by
  unfold fractionDigits
  split
  · rename_i text
    have := length_takeWhile_le text
    rw [List.length_cons]
    split <;> omega
  · exact Nat.zero_le _

/-- Whether an exponent has a minus, and the number of characters of its sign. -/
def exponentSign : List Char → Bool × Nat
  | '-' :: _ => (true, 1)
  | '+' :: _ => (false, 1)
  | _ => (false, 0)

theorem exponentSign_le (text : List Char) : (exponentSign text).2 ≤ text.length := by
  unfold exponentSign
  split
  · exact Nat.le_add_left 1 _
  · exact Nat.le_add_left 1 _
  · exact Nat.zero_le _

/-- What an exponent is made of. -/
theorem exponentPart_cons (mark : Char) (text : List Char) :
    exponentPart (mark :: text) =
      if mark = 'e' || mark = 'E' then
        let digits := (text.drop (exponentSign text).2).takeWhile Char.isDigit
        if digits.isEmpty then (0, 0)
        else
          let magnitude : Int := ofDigits digits
          (if (exponentSign text).1 then -magnitude else magnitude,
            1 + (exponentSign text).2 + digits.length)
      else (0, 0) :=
  rfl

theorem exponentPart_le (text : List Char) : (exponentPart text).2 ≤ text.length := by
  cases text with
  | nil => exact Nat.le_refl 0
  | cons mark text =>
      have sign := exponentSign_le text
      have digits := length_takeWhile_le (text.drop (exponentSign text).2)
      rw [List.length_drop] at digits
      rw [exponentPart_cons, List.length_cons]
      dsimp only
      split
      · split
        · exact Nat.zero_le _
        · dsimp only
          omega
      · exact Nat.zero_le _

variable (delimited : IsDelimited rest)
include delimited

theorem takeWhile_append (text : List Char) :
    (text ++ rest).takeWhile Char.isDigit = text.takeWhile Char.isDigit := by
  have nothing : rest.takeWhile Char.isDigit = [] := by
    cases rest with
    | nil => rfl
    | cons character rest => rw [List.takeWhile_cons, delimited.head.1, if_neg Bool.false_ne_true]
  rw [List.takeWhile_append, nothing, List.append_nil]
  split
  · rename_i sameLength
    exact ((List.takeWhile_prefix _).eq_of_length sameLength).symm
  · rfl

theorem wholeDigits_append (text : List Char) : wholeDigits (text ++ rest) = wholeDigits text := by
  cases text with
  | nil =>
      cases rest with
      | nil => rfl
      | cons character rest =>
          have noDigit := delimited.head.1
          rw [List.nil_append, wholeDigits, List.takeWhile_cons, noDigit, if_neg Bool.false_ne_true]
          · rfl
          · rintro _ ⟨⟩
            cases noDigit
  | cons character text =>
      by_cases zero : character = '0'
      · subst zero
        rfl
      · have others := takeWhile_append delimited (character :: text)
        rw [wholeDigits, wholeDigits]
        · exact others
        · exact fun _ same => absurd (List.cons.inj same).1 zero
        · exact fun _ same => absurd (List.cons.inj same).1 zero

theorem fractionDigits_append (text : List Char) :
    fractionDigits (text ++ rest) = fractionDigits text := by
  cases text with
  | nil =>
      cases rest with
      | nil => rfl
      | cons character rest =>
          rw [List.nil_append, fractionDigits]
          · rfl
          · rintro _ ⟨⟩
            exact absurd delimited.head.2 (by decide)
  | cons character text =>
      by_cases point : character = '.'
      · subst point
        exact takeWhile_append delimited text
      · rw [fractionDigits, fractionDigits]
        · exact fun _ same => absurd (List.cons.inj same).1 point
        · exact fun _ same => absurd (List.cons.inj same).1 point

theorem exponentSign_append (text : List Char) :
    exponentSign (text ++ rest) = exponentSign text := by
  cases text with
  | nil =>
      cases rest with
      | nil => rfl
      | cons character rest =>
          rw [List.nil_append, exponentSign]
          · rfl
          · rintro _ ⟨⟩
            exact absurd delimited.head.2 (by decide)
          · rintro _ ⟨⟩
            exact absurd delimited.head.2 (by decide)
  | cons character text =>
      by_cases minus : character = '-'
      · subst minus
        rfl
      · by_cases plus : character = '+'
        · subst plus
          rfl
        · rw [exponentSign, exponentSign]
          all_goals rintro _ ⟨⟩
          · exact minus rfl
          · exact plus rfl
          · exact minus rfl
          · exact plus rfl

theorem exponentPart_append (text : List Char) :
    exponentPart (text ++ rest) = exponentPart text := by
  cases text with
  | nil =>
      cases rest with
      | nil => rfl
      | cons character rest =>
          have noMark : ¬(character = 'e' || character = 'E') = true := by
            have differs := delimited.head.2
            simp only [List.mem_cons, not_or] at differs
            simp [differs]
          rw [List.nil_append, exponentPart_cons, if_neg noMark]
          rfl
  | cons mark text =>
      rw [List.cons_append, exponentPart_cons, exponentPart_cons, exponentSign_append delimited,
        List.drop_append_of_le_length (exponentSign_le text), takeWhile_append delimited]

end Parts

/-! ## Numerals -/

theorem unsignedToken?_append (delimited : IsDelimited rest) (negative : Bool) (text : List Char) :
    unsignedToken? negative (text ++ rest) = unsignedToken? negative text := by
  have whole := (wholeDigits_isPrefix text).length_le
  have fraction := length_fraction_le (text.drop (wholeDigits text).length)
  unfold unsignedToken?
  dsimp only
  rw [wholeDigits_append delimited, List.drop_append_of_le_length whole,
    fractionDigits_append delimited, List.drop_append_of_le_length fraction,
    exponentPart_append delimited]

theorem numeralToken?_append (delimited : IsDelimited rest) (text : List Char) :
    numeralToken? (text ++ rest) = numeralToken? text := by
  by_cases minus : ∃ more, text = '-' :: more
  · obtain ⟨more, rfl⟩ := minus
    rw [List.cons_append, numeralToken?, numeralToken?, unsignedToken?_append delimited]
  · have noMinus : ∀ more, text ++ rest ≠ '-' :: more := by
      rintro more same
      cases text with
      | nil =>
          obtain rfl : rest = '-' :: more := same
          exact absurd delimited.head.2 (by decide)
      | cons character text =>
          obtain ⟨rfl, -⟩ := List.cons.inj same
          exact minus ⟨text, rfl⟩
    rw [numeralToken?, numeralToken?, unsignedToken?_append delimited]
    · exact fun more same => minus ⟨more, same⟩
    · exact noMinus

/-- A numeral takes some characters, and no more than there are.  It may be too long to be read. -/
theorem unsignedToken?_cases {negative : Bool} {token : Token} {length : Nat}
    (begins : unsignedToken? negative text = some (token, length)) :
    0 < length ∧ length ≤ text.length ∧
      ((∃ value, token = .scalar value) ∨ ∃ digits, token = .longInteger digits) := by
  have whole := (wholeDigits_isPrefix text).length_le
  have fraction := length_fraction_le (text.drop (wholeDigits text).length)
  unfold unsignedToken? at begins
  dsimp only at begins
  generalize (if (fractionDigits _).isEmpty then 0 else 1 + (fractionDigits _).length) =
    fractionLength at begins fraction
  have exponent := exponentPart_le ((text.drop (wholeDigits text).length).drop fractionLength)
  rw [List.length_drop] at fraction exponent
  rw [List.length_drop] at exponent
  split at begins
  · cases begins
  · rename_i notEmpty
    have positive := List.length_pos_iff.mpr (mt List.isEmpty_iff.mpr notEmpty)
    split_ifs at begins <;> cases begins
    · exact ⟨positive, whole, Or.inr ⟨_, rfl⟩⟩
    · exact ⟨positive, whole, Or.inl ⟨_, rfl⟩⟩
    · exact ⟨positive, whole, Or.inl ⟨_, rfl⟩⟩
    · exact ⟨by omega, by omega, Or.inl ⟨_, rfl⟩⟩

/-- A numeral begins with a digit, perhaps after a minus. -/
theorem exists_digit_of_unsignedToken? {negative : Bool} {token : Token} {length : Nat}
    (begins : unsignedToken? negative text = some (token, length)) :
    ∃ digit more, digit.isDigit ∧ text = digit :: more := by
  cases isWhole : wholeDigits text with
  | nil =>
      rw [unsignedToken?, isWhole] at begins
      cases begins
  | cons digit others =>
      obtain ⟨more, isText⟩ := wholeDigits_isPrefix text
      rw [isWhole] at isText
      exact ⟨digit, others ++ more, isDigit_of_mem_wholeDigits (isWhole ▸ List.mem_cons_self),
        isText.symm⟩

theorem numeralToken?_cases {token : Token} {length : Nat}
    (begins : numeralToken? text = some (token, length)) :
    0 < length ∧ length ≤ text.length ∧
      ((∃ value, token = .scalar value) ∨ ∃ digits, token = .longInteger digits) := by
  unfold numeralToken? at begins
  split at begins
  · obtain ⟨⟨token, length⟩, found, taken⟩ := Option.map_eq_some_iff.mp begins
    obtain ⟨rfl, rfl⟩ := Prod.mk.inj taken
    obtain ⟨-, inside, isScalar⟩ := unsignedToken?_cases found
    exact ⟨Nat.succ_pos _, Nat.succ_le_succ inside, isScalar⟩
  · exact unsignedToken?_cases begins

theorem exists_digit_of_numeralToken? {token : Token} {length : Nat}
    (begins : numeralToken? text = some (token, length)) :
    ∃ digit more, digit.isDigit ∧ (text = digit :: more ∨ text = '-' :: digit :: more) := by
  unfold numeralToken? at begins
  split at begins
  · obtain ⟨⟨token, length⟩, found, -⟩ := Option.map_eq_some_iff.mp begins
    obtain ⟨digit, more, isDigit, rfl⟩ := exists_digit_of_unsignedToken? found
    exact ⟨digit, more, isDigit, Or.inr rfl⟩
  · obtain ⟨digit, more, isDigit, isText⟩ := exists_digit_of_unsignedToken? begins
    exact ⟨digit, more, isDigit, Or.inl isText⟩

/-- No word begins as a numeral does. -/
theorem wordToken?_of_digit {digit : Char} (isDigit : digit.isDigit)
    (early : digit ∈ text.take 2) : wordToken? text = none := by
  have noDigits : ∀ entry ∈ words, 2 ≤ entry.1.toList.length ∧
      entry.1.toList.any Char.isDigit = false := by decide
  refine Option.map_eq_none_iff.mpr (List.find?_eq_none.mpr fun entry occurs begins => ?_)
  obtain ⟨long, noDigit⟩ := noDigits entry occurs
  have isTake := List.prefix_iff_eq_take.mp (List.isPrefixOf_iff_prefix.mp begins)
  have inside : digit ∈ entry.1.toList := by
    rw [isTake]
    exact List.take_subset_take_left _ long early
  exact List.any_eq_false.mp noDigit digit inside isDigit

/-- The token that begins with a character that is neither punctuation nor a quote. -/
theorem tokenAt_other {character : Char}
    (differs : character ∉ ['\x7b', '\x7d', '[', ']', ',', ':', '\"']) (position : Nat)
    (rest : List Char) :
    tokenAt position character rest =
      match (wordToken? (character :: rest)).or (numeralToken? (character :: rest)) with
      | some (token, length) => (token, length - 1)
      | none => (.unknown, rest.length) := by
  simp only [List.mem_cons, not_or] at differs
  obtain ⟨openObject, closeObject, openArray, closeArray, comma, colon, quote, -⟩ := differs
  rw [tokenAt]
  · exact congrArg (fun begins => match begins with
      | some (token, length) => (token, length - 1)
      | none => (Token.unknown, rest.length)) Option.orElse_eq_or
  all_goals assumption

/-- A text that is a numeral is read as one, whatever stands behind it. -/
theorem tokens_numeral {token : Token} (isNumeral : numeralToken? text = some (token, text.length))
    (delimited : IsDelimited rest) (position : Nat) :
    tokens position (text ++ rest) =
      (position, token) :: tokens (position + text.length) rest := by
  obtain ⟨digit, more, isDigit, shape⟩ := exists_digit_of_numeralToken? isNumeral
  have noDigits : ([' ', '\t', '\n', '\r'] ++ ['\x7b', '\x7d', '[', ']', ',', ':', '\"']).any
      Char.isDigit = false := by decide
  obtain ⟨first, others, rfl, noSpace, differs, early⟩ : ∃ first others, text = first :: others ∧
      isSpace first = false ∧ first ∉ ['\x7b', '\x7d', '[', ']', ',', ':', '\"'] ∧
      digit ∈ (first :: others ++ rest).take 2 := by
    rcases shape with rfl | rfl
    · have differs := mt (List.any_eq_false.mp noDigits digit) (not_not.mpr isDigit)
      have noSpace : isSpace digit = false := by
        simpa [isSpace, and_assoc] using mt (List.mem_append_left _) differs
      exact ⟨digit, more, rfl, noSpace, mt (List.mem_append_right _) differs, by simp⟩
    · exact ⟨'-', digit :: more, rfl, rfl, by decide, by simp⟩
  have noWord := wordToken?_of_digit isDigit early
  have begins := numeralToken?_append delimited (first :: others)
  rw [isNumeral] at begins
  rw [List.cons_append] at noWord begins ⊢
  rw [tokens, noSpace, if_neg Bool.false_ne_true, tokenAt_other differs, noWord, begins]
  simp only [Option.none_or, List.length_cons, Nat.add_sub_cancel, List.drop_left]
  rw [Nat.add_assoc, Nat.add_comm 1]

/-! ## Written integers -/

theorem wholeDigits_decimal (value : Nat) :
    wholeDigits (Number.decimal value) = Number.decimal value := by
  by_cases zero : value = 0
  · subst zero
    rfl
  · have areDigits : ∀ digit ∈ Number.decimal value, digit.isDigit :=
      fun _ => Number.isDigit_of_mem_decimal
    rw [wholeDigits, List.takeWhile_eq_self_iff.mpr areDigits]
    rintro more isZero
    exact zero (Number.eq_zero_of_head?_decimal (by rw [isZero]; rfl))

theorem unsignedToken?_decimal (negative : Bool) {value : Nat}
    (short : (Number.decimal value).length ≤ Number.digitLimit) :
    unsignedToken? negative (Number.decimal value) =
      some (.scalar (.integer (if negative then -value else value)),
        (Number.decimal value).length) := by
  have notEmpty : (Number.decimal value).isEmpty = false :=
    List.isEmpty_eq_false_iff.mpr (Number.decimal_ne_nil value)
  unfold unsignedToken?
  dsimp only
  rw [wholeDigits_decimal, notEmpty, if_neg Bool.false_ne_true, List.drop_length]
  simp only [fractionDigits, exponentPart, List.isEmpty_nil, if_pos, List.drop_nil, decide_true,
    Bool.and_true, if_neg (Nat.not_lt_of_le short), ofDigits_decimal]

/-- An integer that is not too long is read back. -/
theorem numeralToken?_writeInteger {value : Int}
    (short : (Number.decimal value.natAbs).length ≤ Number.digitLimit) :
    numeralToken? (Number.writeInteger value).toList =
      some (.scalar (.integer value), (Number.writeInteger value).toList.length) := by
  rw [Number.writeInteger, String.toList_ofList]
  split
  · rename_i isNegative
    have isValue : -(value.natAbs : Int) = value := by omega
    rw [numeralToken?, unsignedToken?_decimal true short, if_pos rfl, isValue]
    rfl
  · have isValue : (value.natAbs : Int) = value := by omega
    rw [numeralToken?, unsignedToken?_decimal false short, if_neg Bool.false_ne_true, isValue]
    rintro more same
    have isDigit := Number.isDigit_of_mem_decimal (same ▸ List.mem_cons_self)
    exact absurd isDigit (by decide)

/-! ## Written binary numbers -/

def IsNumeralText (text : List Char) : Prop :=
  ∀ character ∈ text, isNumeralCharacter character = true

instance (text : List Char) : Decidable (IsNumeralText text) :=
  List.decidableBAll _ text

theorem isNumeralText_of_isDigit {digits : List Char}
    (areDigits : ∀ digit ∈ digits, digit.isDigit) : IsNumeralText digits :=
  fun digit occurs => by rw [isNumeralCharacter, areDigits digit occurs, Bool.true_or]

theorem IsNumeralText.append {text rest : List Char} (isNumeral : IsNumeralText text)
    (isNumeralRest : IsNumeralText rest) : IsNumeralText (text ++ rest) :=
  List.forall_mem_append.mpr ⟨isNumeral, isNumeralRest⟩

theorem IsNumeralText.cons {text : List Char} (isNumeral : IsNumeralText text) {character : Char}
    (isNumeralCharacter : isNumeralCharacter character = true) :
    IsNumeralText (character :: text) :=
  List.forall_mem_cons.mpr ⟨isNumeralCharacter, isNumeral⟩

theorem IsNumeralText.of_subset {text part : List Char} (isNumeral : IsNumeralText text)
    (subset : part ⊆ text) : IsNumeralText part :=
  fun character occurs => isNumeral character (subset occurs)

theorem isNumeralText_decimal (value : Nat) : IsNumeralText (Number.decimal value) :=
  isNumeralText_of_isDigit fun _ => Number.isDigit_of_mem_decimal

section Written

variable {digits : List Char} (isNumeral : IsNumeralText digits)
include isNumeral

theorem isNumeralText_writePositional (point : Int) :
    IsNumeralText (Number.writePositional digits point) := by
  have zeros (count : Nat) : IsNumeralText (List.replicate count '0') := by
    intro zero isZero
    rw [List.eq_of_mem_replicate isZero]
    decide
  have start : IsNumeralText ['0', '.'] := by decide
  unfold Number.writePositional
  split_ifs
  · exact (start.append (zeros _)).append isNumeral
  · exact (isNumeral.append (zeros _)).append (by decide)
  · exact (isNumeral.of_subset (List.take_subset _ _)).append
      ((isNumeral.of_subset (List.drop_subset _ _)).cons (by decide))

theorem isNumeralText_writeScientific (point : Int) :
    IsNumeralText (Number.writeScientific digits point) := by
  have exponent : IsNumeralText (Number.writeExponent (point - 1)) := by
    refine IsNumeralText.cons (.cons ?_ ?_) (by decide)
    · split
      · exact (isNumeralText_decimal _).cons (by decide)
      · exact isNumeralText_decimal _
    · split <;> decide
  refine .append ?_ exponent
  split
  · exact isNumeral
  · exact isNumeral
  · obtain ⟨first, others⟩ := List.forall_mem_cons.mp isNumeral
    exact (IsNumeralText.cons others (by decide)).cons first

end Written

theorem isNumeralText_writeNumeral (numeral : Binary64.Numeral) :
    IsNumeralText (Number.writeNumeral numeral) := by
  have significant : IsNumeralText (Number.trimZeros (Number.decimal numeral.digits)) := by
    intro digit occurs
    refine isNumeralText_decimal numeral.digits digit (List.mem_reverse.mp ?_)
    exact (List.dropWhile_suffix _).subset (List.mem_reverse.mp occurs)
  unfold Number.writeNumeral
  dsimp only
  split
  · exact isNumeralText_writePositional significant _
  · exact isNumeralText_writeScientific significant _

theorem isNumeralText_writeInteger (value : Int) :
    IsNumeralText (Number.writeInteger value).toList := by
  rw [Number.writeInteger, String.toList_ofList]
  split
  · exact (isNumeralText_decimal _).cons (by decide)
  · exact isNumeralText_decimal _

/-- A finite number is written in characters of numerals. -/
theorem isNumeralText_writeBinary (infinity notANumber : String) (negative : Bool) (mantissa : Nat)
    (exponent : Int) :
    IsNumeralText
      (Number.writeBinary infinity notANumber (.finite negative mantissa exponent)).toList := by
  have digits : IsNumeralText (if mantissa = 0 then ['0', '.', '0']
      else Number.writeNumeral (Binary64.shortest mantissa exponent)) := by
    split
    · decide
    · exact isNumeralText_writeNumeral _
  rw [Number.writeBinary, String.toList_ofList]
  split
  · exact digits.cons (by decide)
  · exact digits

mutual

/-- All numbers within a value that are no integers. -/
def numbers : Json → List Binary64
  | .number value => [value]
  | .array items => itemNumbers items
  | .object members => memberNumbers members
  | _ => []

def itemNumbers : List Json → List Binary64
  | [] => []
  | item :: rest => numbers item ++ itemNumbers rest

def memberNumbers : List (String × Json) → List Binary64
  | [] => []
  | (_, value) :: rest => numbers value ++ memberNumbers rest

end

/-- Whether a number is read back from what is written for it. -/
def ReadsBack (number : Binary64) : Prop :=
  readCharacters (Number.writeBinary "Infinity" "NaN" number).toList = .ok (.number number)

theorem notMem_of_isNumeralCharacter {character : Char} (others : List Char)
    (isNumeral : isNumeralCharacter character = true)
    (noneIs : others.any isNumeralCharacter = false) : character ∉ others :=
  fun occurs => List.any_eq_false.mp noneIs character occurs isNumeral

theorem isSpace_of_isNumeralCharacter {character : Char}
    (isNumeral : isNumeralCharacter character = true) : isSpace character = false := by
  have differs := notMem_of_isNumeralCharacter [' ', '\t', '\n', '\r'] isNumeral (by decide)
  simpa [isSpace, and_assoc] using differs

/-- No word is a numeral. -/
theorem wordToken?_of_isNumeralText (isNumeral : IsNumeralText text) : wordToken? text = none := by
  have letters : ∀ entry ∈ words, entry.1.toList.all isNumeralCharacter = false := by decide
  refine Option.map_eq_none_iff.mpr (List.find?_eq_none.mpr fun entry occurs begins => ?_)
  obtain ⟨letter, inWord, isLetter⟩ := List.all_eq_false.mp (letters entry occurs)
  exact isLetter (isNumeral letter ((List.isPrefixOf_iff_prefix.mp begins).subset inWord))

theorem eq_nil_of_tokens_eq_nil {position : Nat} (isNumeral : IsNumeralText text)
    (noTokens : tokens position text = []) : text = [] := by
  cases text with
  | nil => rfl
  | cons character text =>
      have noSpace := isSpace_of_isNumeralCharacter (isNumeral character List.mem_cons_self)
      rw [tokens, noSpace, if_neg Bool.false_ne_true] at noTokens
      cases noTokens

/-- If all characters of a text can belong to numerals, it can be read only if it is one. -/
theorem numeralToken?_of_readCharacters {value : Json} (isNumeral : IsNumeralText text)
    (reads : readCharacters text = .ok value) :
    numeralToken? text = some (.scalar value, text.length) := by
  cases text with
  | nil =>
      rw [readCharacters, tokens] at reads
      cases reads
  | cons first others =>
      obtain ⟨isFirst, areOthers⟩ : _ ∧ IsNumeralText others := List.forall_mem_cons.mp isNumeral
      have differs := notMem_of_isNumeralCharacter
        ['\x7b', '\x7d', '[', ']', ',', ':', '\"'] isFirst (by decide)
      rw [readCharacters, tokens, isSpace_of_isNumeralCharacter isFirst,
        if_neg Bool.false_ne_true, tokenAt_other differs, wordToken?_of_isNumeralText isNumeral,
        Option.none_or] at reads
      cases begins : numeralToken? (first :: others) with
      | none =>
          rw [begins] at reads
          cases reads
      | some entry =>
          obtain ⟨token, length⟩ := entry
          rw [begins] at reads
          obtain ⟨positive, inside, ⟨number, rfl⟩ | ⟨digits, rfl⟩⟩ := numeralToken?_cases begins
          · dsimp only at reads
            cases later : tokens (0 + 1 + (length - 1)) (others.drop (length - 1)) with
            | nil =>
                rw [later] at reads
                cases reads
                have goesOn : IsNumeralText (others.drop (length - 1)) :=
                  areOthers.of_subset (List.drop_subset _ _)
                have taken := List.drop_eq_nil_iff.mp (eq_nil_of_tokens_eq_nil goesOn later)
                rw [List.length_cons] at inside ⊢
                rw [show others.length + 1 = length by omega]
            | cons entry entries =>
                rw [later] at reads
                cases reads
          · cases reads

end Json

end Typeloom
