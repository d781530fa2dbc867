import Mathlib.Data.List.Basic
import Mathlib.Logic.Function.Basic
import Typeloom.Naming.Identifier
import Typeloom.Proofs.Naming.Words

/-!
# Identifiers for properties and types

The attribute of a property has an underscore wherever the property name has something that no
identifier has, and one more in front of a digit or behind a keyword.  So different property names
have the same attribute just if such an underscore is all that makes them different.

The spelling of type names begins with a capital or a digit, and so does whatever is put behind a
type name.  So it is an identifier unless it begins with a digit, and it is a keyword only if it
is one of the three that begin with a capital.
-/

namespace Typeloom

/-- Where some values are marked, two values become equal if they are, or if one of them becomes the
other by its mark. -/
theorem ite_mark_eq_iff {α : Type} {mark : α → α} (injective : Function.Injective mark)
    (isMarked : α → Prop) [DecidablePred isMarked] {first second : α} :
    (if isMarked first then mark first else first) =
        (if isMarked second then mark second else second) ↔
      first = second ∨ (isMarked first ∧ ¬isMarked second ∧ mark first = second) ∨
        (isMarked second ∧ ¬isMarked first ∧ mark second = first) := by
  by_cases ofFirst : isMarked first <;> by_cases ofSecond : isMarked second
  · simp [ofFirst, ofSecond, injective.eq_iff]
  · have differ : first ≠ second := fun same => ofSecond (same ▸ ofFirst)
    simp [ofFirst, ofSecond, differ]
  · have differ : first ≠ second := fun same => ofFirst (same ▸ ofSecond)
    simp [ofFirst, ofSecond, differ, eq_comm]
  · simp [ofFirst, ofSecond]

namespace Naming

/-- The characters of a property name with an underscore for every one that stands in no word, and
one underscore for nothing. -/
def wordCharacters (property : String) : List Char :=
  if property.toList.isEmpty then ['_'] else underscored property.toList

/-- Whether a text is another one but for an underscore in front of a leading digit or behind a
keyword. -/
inductive Differs : List Char → List Char → Prop where
  | digit {first : Char} {rest : List Char} (isDigit : Unicode.isDigit first = true) :
      Differs (first :: rest) ('_' :: first :: rest)
  | keyword {text : List Char} (isKeyword : String.ofList text ∈ pythonKeywords) :
      Differs text (text ++ ['_'])

/-- Whether two property names are the same but for underscores. -/
def SharesAttribute (first second : String) : Prop :=
  wordCharacters first = wordCharacters second ∨
    Differs (wordCharacters first) (wordCharacters second) ∨
    Differs (wordCharacters second) (wordCharacters first)

def beginsWithDigit (text : List Char) : Bool :=
  text.head?.any Unicode.isDigit

theorem guardDigit_eq (text : List Char) :
    guardDigit ['_'] text = if beginsWithDigit text then '_' :: text else text := by
  cases text with
  | nil => rfl
  | cons first rest => rfl

theorem beginsWithDigit_mark (text : List Char) : beginsWithDigit ('_' :: text) = false := by
  have isMark : Unicode.isDigit '_' = false := by decide +kernel
  simp [beginsWithDigit, isMark]

theorem guardDigit_eq_iff {first second : List Char} :
    guardDigit ['_'] first = guardDigit ['_'] second ↔
      first = second ∨ (beginsWithDigit first ∧ '_' :: first = second) ∨
        (beginsWithDigit second ∧ '_' :: second = first) := by
  have noDigit {text : List Char} : ¬beginsWithDigit ('_' :: text) = true :=
    Bool.eq_false_iff.mp (beginsWithDigit_mark text)
  have injective : Function.Injective (List.cons '_') := fun _ _ => List.tail_eq_of_cons_eq
  rw [guardDigit_eq, guardDigit_eq, ite_mark_eq_iff injective (beginsWithDigit · = true)]
  refine or_congr_right (or_congr ?_ ?_)
  · exact and_congr_right fun _ => and_iff_right_of_imp fun same => same ▸ noDigit
  · exact and_congr_right fun _ => and_iff_right_of_imp fun same => same ▸ noDigit

theorem differs_iff {text other : List Char} :
    Differs text other ↔ (beginsWithDigit text = true ∧ '_' :: text = other) ∨
      (String.ofList text ∈ pythonKeywords ∧ text ++ ['_'] = other) := by
  constructor
  · rintro (isDigit | isKeyword)
    · exact Or.inl ⟨isDigit, rfl⟩
    · exact Or.inr ⟨isKeyword, rfl⟩
  · rintro (⟨begins, rfl⟩ | ⟨isKeyword, rfl⟩)
    · cases text with
      | nil => cases begins
      | cons first rest => exact .digit begins
    · exact .keyword isKeyword

/-! ## Keywords -/

/-- A keyword begins neither with a digit nor with an underscore, and does not end with one. -/
theorem ends_of_mem_keywords {text : List Char} (isKeyword : String.ofList text ∈ pythonKeywords) :
    (∃ first rest, text = first :: rest ∧ Unicode.isDigit first = false ∧ first ≠ '_') ∧
      text.getLast? ≠ some '_' := by
  have decided : (pythonKeywords.all fun keyword =>
      (keyword.toList.head?.any fun first => !Unicode.isDigit first && first != '_') &&
        keyword.toList.getLast? != some '_') = true := by
    decide +kernel
  have ofThis := List.all_eq_true.mp decided _ isKeyword
  rw [String.toList_ofList, Bool.and_eq_true, bne_iff_ne] at ofThis
  refine ⟨?_, ofThis.2⟩
  cases text with
  | nil => cases ofThis.1
  | cons first rest => exact ⟨first, rest, rfl, by simpa using ofThis.1⟩

theorem guardDigit_keyword_append {text : List Char}
    (isKeyword : String.ofList text ∈ pythonKeywords) (rest : List Char) :
    guardDigit ['_'] (text ++ rest) = text ++ rest := by
  obtain ⟨⟨first, more, rfl, noDigit, -⟩, -⟩ := ends_of_mem_keywords isKeyword
  simp [guardDigit, noDigit]

theorem guardDigit_keyword {text : List Char} (isKeyword : String.ofList text ∈ pythonKeywords) :
    guardDigit ['_'] text = text := by
  simpa using guardDigit_keyword_append isKeyword []

/-- What begins as a keyword has got no underscore in front. -/
theorem eq_of_guardDigit_eq_keyword_append {text rest other : List Char}
    (isKeyword : String.ofList text ∈ pythonKeywords)
    (same : guardDigit ['_'] other = text ++ rest) : other = text ++ rest := by
  obtain ⟨⟨first, more, rfl, -, noMark⟩, -⟩ := ends_of_mem_keywords isKeyword
  rw [guardDigit_eq] at same
  split at same
  · exact absurd (List.cons.inj same).1.symm noMark
  · exact same

/-! ## Attributes -/

theorem attributeName_eq (property : String) :
    attributeName property =
      if String.ofList (guardDigit ['_'] (wordCharacters property)) ∈ pythonKeywords then
        String.ofList (guardDigit ['_'] (wordCharacters property)) ++ "_"
      else String.ofList (guardDigit ['_'] (wordCharacters property)) := by
  have sameCharacters : wordCharacters property =
      if (underscored property.toList).isEmpty then ['_'] else underscored property.toList := by
    simp [wordCharacters, underscored]
  simp only [attributeName, sameCharacters, List.contains_iff_mem]

/-- A name becomes another one by the underscore behind a keyword just if it does so before the
digits are guarded. -/
theorem mark_keyword_iff {text other : List Char} :
    (String.ofList (guardDigit ['_'] text) ∈ pythonKeywords ∧
        String.ofList (guardDigit ['_'] other) ∉ pythonKeywords ∧
        String.ofList (guardDigit ['_'] text) ++ "_" = String.ofList (guardDigit ['_'] other)) ↔
      String.ofList text ∈ pythonKeywords ∧ text ++ ['_'] = other := by
  constructor
  · rintro ⟨isKeyword, -, same⟩
    have isText : text = guardDigit ['_'] text := by
      have itself : guardDigit ['_'] text = guardDigit ['_'] text ++ [] := by simp
      simpa using eq_of_guardDigit_eq_keyword_append isKeyword itself
    rw [← isText] at isKeyword same
    have sameCharacters := congrArg String.toList same
    simp only [String.toList_append, String.toList_ofList] at sameCharacters
    exact ⟨isKeyword, (eq_of_guardDigit_eq_keyword_append isKeyword sameCharacters.symm).symm⟩
  · rintro ⟨isKeyword, rfl⟩
    rw [guardDigit_keyword isKeyword, guardDigit_keyword_append isKeyword]
    refine ⟨isKeyword, fun isKeywordToo => ?_, by simp⟩
    exact (ends_of_mem_keywords isKeywordToo).2 (by simp)

/-- Property names have the same attribute just if they are the same but for underscores. -/
theorem attributeName_eq_iff {first second : String} :
    attributeName first = attributeName second ↔ SharesAttribute first second := by
  have injective : Function.Injective fun name : String => name ++ "_" :=
    fun _ _ same => (String.append_left_inj "_").mp same
  rw [attributeName_eq, attributeName_eq, ite_mark_eq_iff injective (· ∈ pythonKeywords),
    mark_keyword_iff, mark_keyword_iff, String.ofList_inj, guardDigit_eq_iff, SharesAttribute,
    differs_iff, differs_iff, or_assoc, or_or_or_comm]

section Types

variable {name : String}

/-- Whether a name of ASCII characters is an identifier. -/
def IsIdentifier (name : String) : Prop :=
  ∃ first rest, name.toList = first :: rest ∧ (first.isAlpha = true ∨ first = '_') ∧
    ∀ character ∈ rest, character.isAlphanum = true ∨ character = '_'

/-- Whether a class can have a name. -/
def IsUsable (name : String) : Prop :=
  IsIdentifier name ∧ name ∉ pythonKeywords

/-- The keywords that begin with a capital. -/
def capitalKeywords : List String := ["False", "None", "True"]

/-- Whether the first letter or digit of a name is a digit. -/
def FirstIsDigit (name : String) : Prop :=
  ∃ first ∈ (name.toList.filter Char.isAlphanum).head?, first.isDigit = true

/-- Whether a name has one word only and spells a keyword in capitals or small letters that becomes
a keyword again when it is capitalized. -/
def SpellsKeyword (name : String) : Prop :=
  ∃ word, words name.toList = [word] ∧ String.ofList (lowerWord word) ∈ ["false", "none", "true"]

/-- Whether a text is one that can stand behind a type name: it is empty, or begins with a capital
or a digit. -/
def Resumes (text : List Char) : Prop :=
  ∀ first ∈ text.head?, first.isUpper = true ∨ first.isDigit = true

/-- Whether a text can stand behind a type name. -/
structure IsSuffix (suffix : String) : Prop where
  isAlphanum : ∀ character ∈ suffix.toList, character.isAlphanum = true
  resumes : Resumes suffix.toList

/-! ## Capital and small letters -/

section Letters

variable {character : Char} (isAlphanum : character.isAlphanum = true)

include isAlphanum

theorem toLower_toUpper : character.toUpper.toLower = character.toLower :=
  of_isAlphanum (fun other => other.toUpper.toLower = other.toLower) (by decide) isAlphanum

theorem toUpper_toLower : character.toLower.toUpper = character.toUpper :=
  of_isAlphanum (fun other => other.toLower.toUpper = other.toUpper) (by decide) isAlphanum

theorem toLower_toLower : character.toLower.toLower = character.toLower :=
  of_isAlphanum (fun other => other.toLower.toLower = other.toLower) (by decide) isAlphanum

theorem isDigit_toUpper : character.toUpper.isDigit = character.isDigit :=
  of_isAlphanum (fun other => other.toUpper.isDigit = other.isDigit) (by decide) isAlphanum

theorem isUpper_or_isDigit_toUpper :
    character.toUpper.isUpper = true ∨ character.toUpper.isDigit = true :=
  of_isAlphanum (fun other => other.toUpper.isUpper = true ∨ other.toUpper.isDigit = true)
    (by decide) isAlphanum

theorem isLetter_iff : character.isAlpha = true ∨ character = '_' ↔ ¬character.isDigit = true :=
  of_isAlphanum (fun other => other.isAlpha = true ∨ other = '_' ↔ ¬other.isDigit = true)
    (by decide) isAlphanum

end Letters

theorem isLower_eq_false {character : Char}
    (isOther : character.isUpper = true ∨ character.isDigit = true) :
    character.isLower = false :=
  of_isAlphanum
    (fun other => other.isUpper = true ∨ other.isDigit = true → other.isLower = false)
    (by decide) (isAlphanum_iff.mpr (isOther.imp_left Or.inl)) isOther

theorem map_toLower_toLower {word : List Char}
    (areAlphanum : ∀ character ∈ word, character.isAlphanum = true) :
    (word.map Char.toLower).map Char.toLower = word.map Char.toLower := by
  rw [List.map_map]
  exact List.map_congr_left fun character occurs => toLower_toLower (areAlphanum character occurs)

theorem lowerWord_capitalizedWord {word : List Char}
    (areAlphanum : ∀ character ∈ word, character.isAlphanum = true) :
    lowerWord (capitalizedWord word) = lowerWord word := by
  cases word with
  | nil => rfl
  | cons first rest =>
      obtain ⟨ofFirst, ofRest⟩ := List.forall_mem_cons.mp areAlphanum
      simp only [capitalizedWord, lowerWord, List.map_cons, map_toLower_toLower ofRest,
        toLower_toUpper ofFirst]

theorem capitalizedWord_lowerWord {word : List Char}
    (areAlphanum : ∀ character ∈ word, character.isAlphanum = true) :
    capitalizedWord (lowerWord word) = capitalizedWord word := by
  cases word with
  | nil => rfl
  | cons first rest =>
      obtain ⟨ofFirst, ofRest⟩ := List.forall_mem_cons.mp areAlphanum
      simp only [capitalizedWord, lowerWord, List.map_cons, map_toLower_toLower ofRest,
        toUpper_toLower ofFirst]

/-! ## How type names begin -/

theorem toList_pascalCase (name : String) :
    (pascalCase name).toList = ((words name.toList).map capitalizedWord).flatten :=
  String.toList_ofList

/-- The spelling of type names begins with the first letter or digit of the name. -/
theorem head?_pascalCase (name : String) :
    (pascalCase name).toList.head? =
      (name.toList.filter Char.isAlphanum).head?.map Char.toUpper := by
  rw [toList_pascalCase, ← flatten_words]
  cases areWords : words name.toList with
  | nil => rfl
  | cons word others =>
      have isWord : word ∈ words name.toList := areWords ▸ List.mem_cons_self
      obtain ⟨first, rest, rfl⟩ := List.exists_cons_of_ne_nil (ne_nil_of_mem_words isWord)
      rfl

theorem pascalCase_eq_empty_iff :
    pascalCase name = "" ↔ ∀ character ∈ name.toList, character.isAlphanum = false := by
  have isEmpty : pascalCase name = "" ↔ (pascalCase name).toList.head? = none := by
    rw [List.head?_eq_none_iff, String.toList_eq_nil_iff]
  rw [isEmpty, head?_pascalCase, Option.map_eq_none_iff, List.head?_eq_none_iff,
    List.filter_eq_nil_iff]
  simp

theorem resumes_capitalizedWords {text : List Char} {parts : List (List Char)}
    (areWords : ∀ word ∈ parts, word ∈ words text) :
    Resumes (parts.map capitalizedWord).flatten := by
  cases parts with
  | nil => exact fun _ begins => nomatch begins
  | cons word others =>
      have isWord := areWords word List.mem_cons_self
      obtain ⟨first, rest, rfl⟩ := List.exists_cons_of_ne_nil (ne_nil_of_mem_words isWord)
      rintro _ ⟨⟩
      exact isUpper_or_isDigit_toUpper (isAlphanum_of_mem_words isWord List.mem_cons_self)

theorem eq_nil_of_capitalizedWords {text : List Char} {parts : List (List Char)}
    (areWords : ∀ word ∈ parts, word ∈ words text)
    (isEmpty : (parts.map capitalizedWord).flatten = []) : parts = [] := by
  cases parts with
  | nil => rfl
  | cons word others =>
      obtain ⟨first, rest, rfl⟩ := List.exists_cons_of_ne_nil
        (ne_nil_of_mem_words (areWords word List.mem_cons_self))
      cases isEmpty

theorem resumes_pascalCase (name : String) : Resumes (pascalCase name).toList :=
  toList_pascalCase name ▸ resumes_capitalizedWords fun _ => id

/-- The spelling of type names begins with a digit just if the first letter or digit of the name
is one. -/
theorem firstIsDigit_iff :
    FirstIsDigit name ↔ ∃ first ∈ (pascalCase name).toList.head?, first.isDigit = true := by
  rw [head?_pascalCase, FirstIsDigit]
  cases begins : (name.toList.filter Char.isAlphanum).head? with
  | none => simp
  | some first =>
      have isAlphanum := (List.mem_filter.mp (List.mem_of_mem_head? begins)).2
      simp [isDigit_toUpper isAlphanum]

theorem Resumes.append {front back : List Char} (ofFront : Resumes front) (ofBack : Resumes back) :
    Resumes (front ++ back) := by
  cases front with
  | nil => exact ofBack
  | cons first rest => exact ofFront

theorem isSuffix_empty : IsSuffix "" :=
  ⟨by simp, by simp [Resumes]⟩

theorem IsSuffix.append {front back : String} (ofFront : IsSuffix front) (ofBack : IsSuffix back) :
    IsSuffix (front ++ back) where
  isAlphanum character occurs := by
    rw [String.toList_append] at occurs
    exact (List.mem_append.mp occurs).elim (ofFront.isAlphanum character)
      (ofBack.isAlphanum character)
  resumes := String.toList_append ▸ ofFront.resumes.append ofBack.resumes

theorem isSuffix_pascalCase (name : String) : IsSuffix (pascalCase name) :=
  ⟨fun _ => isAlphanum_of_mem_pascalCase, resumes_pascalCase name⟩

theorem isSuffix_toString (number : Nat) : IsSuffix (toString number) := by
  have areDigits {character : Char} (occurs : character ∈ (toString number).toList) :
      character.isDigit = true := by
    refine Nat.isDigit_of_mem_toDigits (b := 10) (n := number) (by decide) (by decide) ?_
    simpa [toString, Nat.repr] using occurs
  refine ⟨fun character occurs => ?_, fun character begins => ?_⟩
  · exact isAlphanum_iff.mpr (Or.inr (areDigits occurs))
  · exact Or.inr (areDigits (List.mem_of_mem_head? begins))

/-! ## Keywords -/

/-- Of what resumes a type name, only the keywords with a capital are keywords. -/
theorem mem_keywords_iff (resumes : Resumes name.toList) :
    name ∈ pythonKeywords ↔ name ∈ capitalKeywords := by
  have decided : (pythonKeywords.all fun keyword =>
      (keyword.toList.head?.all fun first => !first.isUpper && !first.isDigit) ||
        keyword ∈ capitalKeywords) = true := by
    decide +kernel
  constructor
  · intro isKeyword
    have ofThis := List.all_eq_true.mp decided name isKeyword
    rw [Bool.or_eq_true, decide_eq_true_eq] at ofThis
    refine ofThis.resolve_left fun small => ?_
    cases begins : name.toList.head? with
    | none =>
        obtain rfl : name = "" := by simpa using begins
        exact absurd isKeyword (by decide +kernel)
    | some first =>
        rcases resumes first begins with isUpper | isDigit
        · simp [begins, isUpper] at small
        · simp [begins, isDigit] at small
  · have areKeywords : capitalKeywords ⊆ pythonKeywords := by decide +kernel
    exact fun isKeyword => areKeywords isKeyword

/-- What does not begin with a small letter is no keyword of C#. -/
theorem notMem_csharpKeywords (begins : ∀ first ∈ name.toList.head?, first.isLower = false) :
    name ∉ csharpKeywords := by
  have decided : (csharpKeywords.all fun keyword =>
      keyword.toList.head?.any Char.isLower) = true := by
    decide +kernel
  intro isKeyword
  have ofThis := List.all_eq_true.mp decided name isKeyword
  cases isFirst : name.toList.head? with
  | none => simp [isFirst] at ofThis
  | some first => simp [isFirst, begins first isFirst] at ofThis

/-- Nothing that resumes a name makes it a keyword. -/
theorem eq_nil_of_append_mem_keywords {front back : List Char} (nonempty : front ≠ [])
    (resumes : Resumes back) (isKeyword : String.ofList (front ++ back) ∈ capitalKeywords) :
    back = [] := by
  have decided : (capitalKeywords.all fun keyword =>
      keyword.toList.tail.all fun character =>
        !character.isUpper && !character.isDigit) = true := by
    decide +kernel
  have ofThis := List.all_eq_true.mp decided _ isKeyword
  rw [String.toList_ofList, List.tail_append_of_ne_nil nonempty] at ofThis
  cases back with
  | nil => rfl
  | cons first rest =>
      have small := List.all_eq_true.mp ofThis first (by simp)
      rcases resumes first rfl with isUpper | isDigit
      · simp [isUpper] at small
      · simp [isDigit] at small

/-- A capitalized word is a keyword just if the word is spelled like one but for the size of its
letters. -/
theorem capitalizedWord_mem_keywords_iff {word : List Char}
    (areAlphanum : ∀ character ∈ word, character.isAlphanum = true) :
    String.ofList (capitalizedWord word) ∈ capitalKeywords ↔
      String.ofList (lowerWord word) ∈ ["false", "none", "true"] := by
  have lowers := lowerWord_capitalizedWord areAlphanum
  have capitalizes := capitalizedWord_lowerWord areAlphanum
  constructor
  · intro isKeyword
    have decided : ∀ keyword ∈ capitalKeywords,
        String.ofList (lowerWord keyword.toList) ∈ ["false", "none", "true"] := by
      decide +kernel
    simpa only [String.toList_ofList, lowers] using decided _ isKeyword
  · intro isKeyword
    have decided : ∀ keyword ∈ ["false", "none", "true"],
        String.ofList (capitalizedWord keyword.toList) ∈ capitalKeywords := by
      decide +kernel
    simpa only [String.toList_ofList, capitalizes] using decided _ isKeyword

/-- The spelling of type names is a keyword just if the name has one word, and that is spelled like
a keyword but for the size of its letters. -/
theorem pascalCase_mem_keywords_iff : pascalCase name ∈ capitalKeywords ↔ SpellsKeyword name := by
  constructor
  · intro isKeyword
    rw [pascalCase] at isKeyword
    -- A second word would begin with a capital or a digit inside of the keyword.
    cases areWords : words name.toList with
    | nil =>
        rw [areWords] at isKeyword
        exact absurd isKeyword (by decide +kernel)
    | cons word others =>
        have isWord : word ∈ words name.toList := areWords ▸ List.mem_cons_self
        obtain ⟨first, rest, rfl⟩ := List.exists_cons_of_ne_nil (ne_nil_of_mem_words isWord)
        rw [areWords, List.map_cons, List.flatten_cons] at isKeyword
        have areOthers : ∀ other ∈ others, other ∈ words name.toList := fun other occurs =>
          areWords ▸ List.mem_cons_of_mem _ occurs
        have noMore : (others.map capitalizedWord).flatten = [] :=
          eq_nil_of_append_mem_keywords (List.cons_ne_nil _ _)
            (resumes_capitalizedWords areOthers) isKeyword
        have alone : others = [] := eq_nil_of_capitalizedWords areOthers noMore
        rw [noMore, List.append_nil] at isKeyword
        exact ⟨_, alone ▸ areWords, (capitalizedWord_mem_keywords_iff fun _ =>
          isAlphanum_of_mem_words isWord).mp isKeyword⟩
  · rintro ⟨word, areWords, isKeyword⟩
    have areAlphanum (character : Char) (occurs : character ∈ word) :
        character.isAlphanum = true :=
      isAlphanum_of_mem_words (areWords ▸ List.mem_singleton_self word) occurs
    rw [pascalCase, areWords, List.map_singleton, List.flatten_singleton]
    exact (capitalizedWord_mem_keywords_iff areAlphanum).mpr isKeyword

/-! ## Names that a class can have -/

/-- Letters and digits are an identifier just if they begin with a letter. -/
theorem isIdentifier_iff (areAlphanum : ∀ character ∈ name.toList, character.isAlphanum = true) :
    IsIdentifier name ↔ ∃ first ∈ name.toList.head?, ¬first.isDigit = true := by
  rw [IsIdentifier]
  cases characters : name.toList with
  | nil => simp
  | cons first rest =>
      rw [characters] at areAlphanum
      obtain ⟨ofFirst, ofRest⟩ := List.forall_mem_cons.mp areAlphanum
      have isLetter := isLetter_iff ofFirst
      constructor
      · rintro ⟨_, _, ⟨⟩, begins, -⟩
        exact ⟨first, rfl, isLetter.mp begins⟩
      · rintro ⟨_, ⟨⟩, noDigit⟩
        exact ⟨first, rest, rfl, isLetter.mpr noDigit, fun character occurs =>
          Or.inl (ofRest character occurs)⟩

/-- The spelling of a type name with something behind that resumes it is a name that a class can
have unless it begins with a digit or is one of the keywords with a capital. -/
theorem isUsable_append_iff {suffix : String} (nonempty : pascalCase name ≠ "")
    (isSuffix : IsSuffix suffix) :
    IsUsable (pascalCase name ++ suffix) ↔
      ¬FirstIsDigit name ∧ ¬(suffix = "" ∧ SpellsKeyword name) := by
  have isSuffixToo := (isSuffix_pascalCase name).append isSuffix
  obtain ⟨first, rest, spelled⟩ := List.exists_cons_of_ne_nil
    (mt String.toList_eq_nil_iff.mp nonempty)
  have isIdentifier : IsIdentifier (pascalCase name ++ suffix) ↔ ¬FirstIsDigit name := by
    rw [isIdentifier_iff isSuffixToo.isAlphanum, firstIsDigit_iff, String.toList_append, spelled]
    simp
  have isKeyword : pascalCase name ++ suffix ∈ pythonKeywords ↔
      suffix = "" ∧ SpellsKeyword name := by
    rw [mem_keywords_iff isSuffixToo.resumes]
    constructor
    · intro isKeyword
      have noSuffix : suffix = "" := by
        rw [← String.toList_eq_nil_iff]
        rw [← String.ofList_toList (s := pascalCase name ++ suffix), String.toList_append]
          at isKeyword
        exact eq_nil_of_append_mem_keywords (mt String.toList_eq_nil_iff.mp nonempty)
          isSuffix.resumes isKeyword
      rw [noSuffix, String.append_empty] at isKeyword
      exact ⟨noSuffix, pascalCase_mem_keywords_iff.mp isKeyword⟩
    · rintro ⟨rfl, spells⟩
      rw [String.append_empty]
      exact pascalCase_mem_keywords_iff.mpr spells
  rw [IsUsable, isIdentifier, isKeyword]

end Types

end Naming

end Typeloom
