import Mathlib.Data.List.Basic
import Typeloom.Json.Token
import Typeloom.Table

/-!
# Tokens of a Python expression

The lexical part of the expressions in which literals and displays are written: names, decimal
numerals, texts between quotes of either kind with their escapes, and the symbols of signs, lists
and dictionaries.  Such an expression stands on one line, apart from what is in its texts.  Numerals
of other bases, digits in groups, imaginary numerals and texts with a prefix are left out, and so
are the limits that an implementation sets to the length of a numeral and to nesting.

How far a token reaches is settled by the characters of the token and the one behind it.  A text
that has been cut into tokens is therefore cut into the same tokens if a symbol follows it.
-/

namespace Typeloom

/-- The number with the other sign. -/
def Binary64.negated : Binary64 → Binary64
  | finite negative mantissa exponent => finite (!negative) mantissa exponent
  | infinite negative => infinite (!negative)
  | notANumber => notANumber

namespace Python

/-- A value of one of the types that literals and displays have.  A text is the list of its code
points, of which those of surrogates need not come in pairs. -/
inductive Value where
  | none
  | bool (value : Bool)
  | int (value : Int)
  | float (value : Binary64)
  | str (codes : List Nat)
  | list (items : List Value)
  | dict (members : List (List Nat × Value))
deriving Inhabited, Repr

inductive Token where
  | name (letters : List Char)
  | numeral (value : Value)
  | text (codes : List Nat)
  | symbol (character : Char)
deriving Inhabited, Repr

/-! ## Lexical structure -/

def symbols : List Char :=
  ['-', ',', ':', '[', ']', '\x7b', '\x7d']

/-- Whether a character stands between tokens: a space, a tab or a form feed. -/
def isGap (character : Char) : Bool :=
  [' ', '\t', '\x0c'].contains character

def isQuote (character : Char) : Bool :=
  ['\"', '\''].contains character

/-- Whether a character can go on in a name or a numeral. -/
def isNamePart (character : Char) : Bool :=
  character.isAlphanum || character = '_' || 127 < character.toNat

def codes (text : List Char) : List Nat :=
  text.map Char.toNat

/-- The numeral with which a text begins.  A sign belongs to it behind the mark of an exponent
only. -/
def numeralPart (afterMark : Bool) : List Char → List Char
  | [] => []
  | character :: rest =>
      if isNamePart character || character = '.' then
        character :: numeralPart (character = 'e' || character = 'E') rest
      else if afterMark && (character = '+' || character = '-') then
        character :: numeralPart false rest
      else []

/-- The value of a decimal numeral.  An integer does not begin with a zero unless it is zero. -/
def numeralValue? (numeral : List Char) : Option Value :=
  let whole := numeral.takeWhile Char.isDigit
  let afterWhole := numeral.dropWhile Char.isDigit
  let fraction := Json.fractionDigits afterWhole
  let fractionLength := if afterWhole.head? = some '.' then 1 + fraction.length else 0
  let (exponent, exponentLength) := Json.exponentPart (afterWhole.drop fractionLength)
  if !(afterWhole.drop (fractionLength + exponentLength)).isEmpty then none
  else if whole.isEmpty && fraction.isEmpty then none
  else if afterWhole.isEmpty then
    if whole.head? = some '0' && whole.any (· ≠ '0') then none
    else some (.int (Json.ofDigits whole))
  else
    let digits := (whole ++ fraction).dropWhile (· == '0')
    some (.float
      (Binary64.ofDecimal false (Json.ofDigits digits) digits.length (exponent - fraction.length)))

/-- The code point of an escape with a fixed number of hexadecimal digits, and the number of
characters behind the backslash. -/
def hexadecimalEscape? (digits : Nat) (text : List Char) : Option (List Nat × Nat) :=
  if text.length < digits then none
  else do
    let code ← Text.ofHexadecimal? (text.take digits)
    if 0x10FFFF < code then none else some ([code], 1 + digits)

def letterEscape? (letter : Char) : Option Nat :=
  [('\\', 92), ('\'', 39), ('\"', 34), ('a', 7), ('b', 8), ('f', 12), ('n', 10), ('r', 13),
    ('t', 9), ('v', 11)].lookup letter

def isOctalDigit (character : Char) : Bool :=
  '0'.toNat ≤ character.toNat && character.toNat < '8'.toNat

/-- What an escape stands for, and the number of characters behind its backslash.  A backslash
before a line end stands for nothing, and one before a character without a meaning for itself.
Escapes that name a character are left out. -/
def escape? : List Char → Option (List Nat × Nat)
  | [] => none
  | letter :: rest =>
      if letter = '\n' then some ([], 1)
      else if letter = 'x' then hexadecimalEscape? 2 rest
      else if letter = 'u' then hexadecimalEscape? 4 rest
      else if letter = 'U' then hexadecimalEscape? 8 rest
      else if letter = 'N' then none
      else if isOctalDigit letter then
        let digits := letter :: (rest.take 2).takeWhile isOctalDigit
        some ([digits.foldl (fun code digit => code * 8 + (digit.toNat - '0'.toNat)) 0],
          digits.length)
      else
        match letterEscape? letter with
        | some code => some ([code], 1)
        | none => some (codes ['\\', letter], 1)

/-- What is read of a text, behind a part of it with the given codes and the given length. -/
def behind (codes : List Nat) (length : Nat) (body : List Nat × Nat) : List Nat × Nat :=
  (codes ++ body.1, length + body.2)

/-- Read a text up to its closing quotes, of which there are one or three.  A text between single
quotes ends on its line.  The count is of the characters used. -/
def textBody? (quotes : List Char) : List Char → Option (List Nat × Nat)
  | [] => none
  | character :: rest =>
      if quotes.isPrefixOf (character :: rest) then some ([], quotes.length)
      else if character = '\\' then
        match escape? rest with
        | none => none
        | some (escaped, used) =>
            (textBody? quotes (rest.drop used)).map (behind escaped (1 + used))
      else if character = '\n' && quotes.length = 1 then none
      else (textBody? quotes rest).map (behind [character.toNat] 1)
termination_by text => text.length
decreasing_by all_goals (simp [List.length_drop]; try omega)

/-- The text that begins with a quote, and the number of characters it takes after that one. -/
def textToken? (quote : Char) (rest : List Char) : Option (Token × Nat) :=
  if [quote, quote].isPrefixOf rest then
    (textBody? [quote, quote, quote] (rest.drop 2)).map fun body => (.text body.1, 2 + body.2)
  else (textBody? [quote] rest).map fun body => (.text body.1, body.2)

/-- The name that begins with a character, and the number of characters it takes after that one.
A name before a quote would be the prefix of a text of another kind. -/
def nameToken? (character : Char) (rest : List Char) : Option (Token × Nat) :=
  if (rest.dropWhile isNamePart).head?.any isQuote then none
  else
    let letters := rest.takeWhile isNamePart
    some (.name (character :: letters), letters.length)

/-- The token that begins with a character, and the number of characters it takes after that
one. -/
def tokenAt? (character : Char) (rest : List Char) : Option (Token × Nat) :=
  if symbols.contains character then some (.symbol character, 0)
  else if isQuote character then textToken? character rest
  else if character.isDigit || character = '.' then
    let more := numeralPart false rest
    (numeralValue? (character :: more)).map fun value => (.numeral value, more.length)
  else if isNamePart character then nameToken? character rest
  else none

def tokens? : List Char → Option (List Token)
  | [] => some []
  | character :: rest =>
      if isGap character then tokens? rest
      else
        match tokenAt? character rest with
        | none => none
        | some (token, count) => (tokens? (rest.drop count)).map (token :: ·)
termination_by text => text.length
decreasing_by all_goals (simp [List.length_drop]; try omega)

/-! ## Texts in front of a delimiter -/

/-- The symbols that can stand behind an expression. -/
def delimiters : List Char :=
  [',', ':', ']', '\x7d']

/-- Whether a text is empty or begins with a delimiter. -/
def Delimited (text : List Char) : Prop :=
  ∀ character ∈ text.head?, character ∈ delimiters

variable {text rest : List Char}

theorem delimited_cons {character : Char} (isDelimiter : character ∈ delimiters) :
    Delimited (character :: rest) := by
  simpa [Delimited] using isDelimiter

theorem Delimited.stops (delimited : Delimited rest) (holds : Char → Bool)
    (fails : delimiters.any holds = false) :
    ∀ character ∈ rest.head?, holds character = false :=
  fun character isHead =>
    Bool.eq_false_iff.mpr (List.any_eq_false.mp fails character (delimited character isHead))

theorem takeWhile_append_of_head {holds : Char → Bool}
    (stops : ∀ character ∈ rest.head?, holds character = false) :
    (text ++ rest).takeWhile holds = text.takeWhile holds := by
  induction text with
  | nil =>
      cases rest with
      | nil => rfl
      | cons character rest => simp [stops character rfl]
  | cons character text ih => simp [List.takeWhile_cons, ih]

theorem dropWhile_append_of_head {holds : Char → Bool}
    (stops : ∀ character ∈ rest.head?, holds character = false) :
    (text ++ rest).dropWhile holds = text.dropWhile holds ++ rest := by
  induction text with
  | nil =>
      cases rest with
      | nil => rfl
      | cons character rest => simp [stops character rfl]
  | cons character text ih =>
      by_cases goesOn : holds character = true <;> simp [goesOn, ih]

theorem isPrefixOf_append_of_head {front : List Char}
    (stops : ∀ character ∈ rest.head?, character ∉ front) :
    front.isPrefixOf (text ++ rest) = front.isPrefixOf text := by
  induction front generalizing text with
  | nil => rfl
  | cons first front ih =>
      cases text with
      | nil =>
          cases rest with
          | nil => rfl
          | cons character rest =>
              have differs : first ≠ character := fun same =>
                stops character rfl (same ▸ List.mem_cons_self)
              simp [List.isPrefixOf, differs]
      | cons character text =>
          have stopsLater : ∀ character ∈ rest.head?, character ∉ front := fun character isHead =>
            fun occurs => stops character isHead (List.mem_cons_of_mem _ occurs)
          simp [List.isPrefixOf, ih stopsLater]

theorem numeralPart_append (delimited : Delimited rest) (afterMark : Bool) :
    numeralPart afterMark (text ++ rest) = numeralPart afterMark text := by
  induction text generalizing afterMark with
  | nil =>
      cases rest with
      | nil => rfl
      | cons character rest =>
          have noPart := delimited.stops isNamePart (by decide) character rfl
          have noMark := delimited.stops (['.', '+', '-'].contains ·) (by decide) character rfl
          obtain ⟨noPoint, noPlus, noMinus⟩ : character ≠ '.' ∧ character ≠ '+' ∧
              character ≠ '-' := by simpa using noMark
          simp [numeralPart, noPart, noPoint, noPlus, noMinus]
  | cons character text ih => simp only [List.cons_append, numeralPart, ih]

theorem hexadecimalEscape?_append {digits : Nat} {escaped : List Nat × Nat}
    (reads : hexadecimalEscape? digits text = some escaped) :
    hexadecimalEscape? digits (text ++ rest) = some escaped ∧ escaped.2 ≤ 1 + text.length := by
  unfold hexadecimalEscape? at reads ⊢
  split at reads
  · cases reads
  · next isLong =>
      have stillLong : ¬(text ++ rest).length < digits := by simp; omega
      rw [if_neg stillLong, List.take_append_of_le_length (by omega)]
      refine ⟨reads, ?_⟩
      obtain ⟨code, -, checked⟩ := Option.bind_eq_some_iff.mp reads
      split at checked <;> cases checked
      simp only
      omega

theorem length_numeralPart_le (afterMark : Bool) (text : List Char) :
    (numeralPart afterMark text).length ≤ text.length := by
  induction text generalizing afterMark with
  | nil => simp [numeralPart]
  | cons character text ih =>
      simp only [numeralPart]
      split_ifs
      · exact Nat.succ_le_succ (ih _)
      · exact Nat.succ_le_succ (ih _)
      · exact Nat.zero_le _

/-- An escape within a text is the same whatever follows the text. -/
theorem escape?_append (delimited : Delimited rest) {escaped : List Nat × Nat}
    (reads : escape? text = some escaped) :
    escape? (text ++ rest) = some escaped ∧ escaped.2 ≤ text.length := by
  cases text with
  | nil => cases reads
  | cons letter text =>
      have stops : ∀ character ∈ (rest.take (2 - text.length)).head?,
          isOctalDigit character = false := by
        intro character isHead
        rw [List.head?_take] at isHead
        split at isHead
        · cases isHead
        · exact delimited.stops isOctalDigit (by decide) character isHead
      simp only [List.cons_append, escape?, List.length_cons, List.take_append,
        takeWhile_append_of_head stops] at reads ⊢
      split_ifs at reads ⊢ with lineEnd two four eight named octal
      · cases reads
        exact ⟨rfl, by simp⟩
      · simpa [Nat.add_comm] using hexadecimalEscape?_append reads
      · simpa [Nat.add_comm] using hexadecimalEscape?_append reads
      · simpa [Nat.add_comm] using hexadecimalEscape?_append reads
      · cases reads
        have fits := ((List.takeWhile_prefix (l := text.take 2) isOctalDigit)).length_le
        have short : (text.take 2).length ≤ text.length := List.length_take_le' 2 text
        exact ⟨rfl, Nat.succ_le_succ (Nat.le_trans fits short)⟩
      · split at reads <;> cases reads <;> simp

theorem Delimited.notMem_quotes (delimited : Delimited rest) {quotes : List Char}
    (areQuotes : ∀ quote ∈ quotes, isQuote quote) :
    ∀ character ∈ rest.head?, character ∉ quotes :=
  fun character isHead occurs => Bool.false_ne_true
    ((delimited.stops isQuote (by decide) character isHead).symm.trans (areQuotes character occurs))

/-- Where a text between quotes ends does not depend on what stands behind it. -/
theorem textBody?_append (delimited : Delimited rest) {quotes : List Char}
    (areQuotes : ∀ quote ∈ quotes, isQuote quote) {body : List Nat × Nat}
    (reads : textBody? quotes text = some body) :
    textBody? quotes (text ++ rest) = some body ∧ body.2 ≤ text.length := by
  have closing (text : List Char) : quotes.isPrefixOf (text ++ rest) = quotes.isPrefixOf text :=
    isPrefixOf_append_of_head (delimited.notMem_quotes areQuotes)
  induction text using textBody?.induct quotes generalizing body with
  | case1 => simp [textBody?] at reads
  | case2 character text closes =>
      rw [textBody?, if_pos closes] at reads
      cases reads
      rw [List.cons_append, textBody?, ← List.cons_append, closing, if_pos closes]
      exact ⟨rfl, (List.isPrefixOf_iff_prefix.mp closes).length_le⟩
  | case3 text broken opens =>
      rw [textBody?, if_neg opens, if_pos rfl, broken] at reads
      cases reads
  | case4 text escaped used isEscape opens ih =>
      rw [textBody?, if_neg opens, if_pos rfl, isEscape] at reads
      obtain ⟨more, isMore, rfl⟩ := Option.map_eq_some_iff.mp reads
      obtain ⟨stillEscape, fits⟩ := escape?_append delimited isEscape
      obtain ⟨stillMore, fitsMore⟩ := ih isMore
      rw [List.cons_append, textBody?, ← List.cons_append, closing, if_neg opens, if_pos rfl,
        stillEscape]
      simp only at fits ⊢
      rw [List.drop_append_of_le_length fits, stillMore]
      rw [List.length_drop] at fitsMore
      refine ⟨rfl, ?_⟩
      simp only [behind, List.length_cons]
      omega
  | case5 character text opens noEscape lineEnd =>
      rw [textBody?, if_neg opens, if_neg noEscape, if_pos lineEnd] at reads
      cases reads
  | case6 character text opens noEscape noLineEnd ih =>
      rw [textBody?, if_neg opens, if_neg noEscape, if_neg noLineEnd] at reads
      obtain ⟨more, isMore, rfl⟩ := Option.map_eq_some_iff.mp reads
      obtain ⟨stillMore, fitsMore⟩ := ih isMore
      rw [List.cons_append, textBody?, ← List.cons_append, closing, if_neg opens, if_neg noEscape,
        if_neg noLineEnd, stillMore]
      refine ⟨rfl, ?_⟩
      simp only [behind, List.length_cons]
      omega

theorem textToken?_append (delimited : Delimited rest) {quote : Char} (isQuote : isQuote quote)
    {token : Token × Nat} (reads : textToken? quote text = some token) :
    textToken? quote (text ++ rest) = some token ∧ token.2 ≤ text.length := by
  have opening : [quote, quote].isPrefixOf (text ++ rest) = [quote, quote].isPrefixOf text :=
    isPrefixOf_append_of_head (delimited.notMem_quotes (by simp [isQuote]))
  unfold textToken? at reads ⊢
  rw [opening]
  split_ifs at reads ⊢ with isLong
  · obtain ⟨body, isBody, rfl⟩ := Option.map_eq_some_iff.mp reads
    obtain ⟨stillBody, fits⟩ := textBody?_append delimited (by simp [isQuote]) isBody
    have twoQuotes : 2 ≤ text.length := (List.isPrefixOf_iff_prefix.mp isLong).length_le
    rw [List.drop_append_of_le_length twoQuotes, stillBody]
    rw [List.length_drop] at fits
    exact ⟨rfl, by simp only; omega⟩
  · obtain ⟨body, isBody, rfl⟩ := Option.map_eq_some_iff.mp reads
    obtain ⟨stillBody, fits⟩ := textBody?_append delimited (by simp [isQuote]) isBody
    rw [stillBody]
    exact ⟨rfl, fits⟩

theorem nameToken?_append (delimited : Delimited rest) {character : Char} {token : Token × Nat}
    (reads : nameToken? character text = some token) :
    nameToken? character (text ++ rest) = some token ∧ token.2 ≤ text.length := by
  have stops := delimited.stops isNamePart (by decide)
  have sameNext (before : List Char) :
      (before ++ rest).head?.any isQuote = before.head?.any isQuote := by
    cases before with
    | nil =>
        cases rest with
        | nil => rfl
        | cons character rest => exact delimited.stops isQuote (by decide) character rfl
    | cons => rfl
  unfold nameToken? at reads ⊢
  rw [dropWhile_append_of_head stops, takeWhile_append_of_head stops, sameNext]
  split_ifs at reads ⊢ with beforeQuote
  cases reads
  exact ⟨rfl, (List.takeWhile_prefix isNamePart).length_le⟩

theorem tokenAt?_append (delimited : Delimited rest) {character : Char} {token : Token × Nat}
    (reads : tokenAt? character text = some token) :
    tokenAt? character (text ++ rest) = some token ∧ token.2 ≤ text.length := by
  unfold tokenAt? at reads ⊢
  rw [numeralPart_append delimited]
  split_ifs at reads ⊢ with isSymbol isQuote isNumeral isName
  · cases reads
    exact ⟨rfl, Nat.zero_le _⟩
  · exact textToken?_append delimited isQuote reads
  · refine ⟨reads, ?_⟩
    obtain ⟨value, -, rfl⟩ := Option.map_eq_some_iff.mp reads
    exact length_numeralPart_le false text
  · exact nameToken?_append delimited reads

/-- A text that can be cut into tokens is cut into the same ones in front of a delimiter. -/
theorem tokens?_append (delimited : Delimited rest) {first : List Token}
    (reads : tokens? text = some first) :
    tokens? (text ++ rest) = (tokens? rest).map (first ++ ·) := by
  induction text using tokens?.induct generalizing first with
  | case1 =>
      rw [tokens?] at reads
      cases reads
      simp
  | case2 character text gap ih =>
      rw [tokens?, if_pos gap] at reads
      rw [List.cons_append, tokens?, if_pos gap, ih reads]
  | case3 character text noGap broken =>
      rw [tokens?, if_neg noGap, broken] at reads
      cases reads
  | case4 character text noGap token count isToken ih =>
      rw [tokens?, if_neg noGap, isToken] at reads
      obtain ⟨more, isMore, rfl⟩ := Option.map_eq_some_iff.mp reads
      obtain ⟨stillToken, fits⟩ := tokenAt?_append delimited isToken
      rw [List.cons_append, tokens?, if_neg noGap, stillToken]
      simp only at fits ⊢
      rw [List.drop_append_of_le_length fits, ih isMore, Option.map_map]
      rfl

theorem tokens?_symbol {character : Char} (isSymbol : character ∈ symbols) (rest : List Char) :
    tokens? (character :: rest) = (tokens? rest).map (.symbol character :: ·) := by
  have noGaps : symbols.any isGap = false := by decide
  have isToken : tokenAt? character rest = some (.symbol character, 0) :=
    if_pos (List.contains_iff_mem.mpr isSymbol)
  rw [tokens?, if_neg (List.any_eq_false.mp noGaps character isSymbol), isToken]
  rfl

section Delimiter

variable {character : Char} (isDelimiter : character ∈ delimiters) {first more : List Token}
include isDelimiter

theorem tokens?_closed (reads : tokens? text = some first) :
    tokens? (text ++ [character]) = some (first ++ [.symbol character]) := by
  have areSymbols : delimiters ⊆ symbols := by decide
  rw [tokens?_append (delimited_cons isDelimiter) reads,
    tokens?_symbol (areSymbols isDelimiter), tokens?]
  rfl

theorem tokens?_between (reads : tokens? text = some first) (readsRest : tokens? rest = some more) :
    tokens? (text ++ character :: ' ' :: rest) = some (first ++ .symbol character :: more) := by
  have areSymbols : delimiters ⊆ symbols := by decide
  have skips : tokens? (' ' :: rest) = tokens? rest := by
    rw [tokens?]
    rfl
  rw [tokens?_append (delimited_cons isDelimiter) reads,
    tokens?_symbol (areSymbols isDelimiter), skips, readsRest]
  rfl

end Delimiter

end Python

end Typeloom
