import Mathlib.Data.List.TakeWhile
import Typeloom.Naming.Words
import Typeloom.Unicode.LowerCase

/-!
# What words are made of

The words of a name are its ASCII letters and digits in their order.  Neither spelling of a name
loses one of them or brings in anything but letters, digits and what joins the words.
-/

namespace Typeloom

namespace Naming

variable {character : Char} {text : List Char} {name : String}

/-! ## Letters and digits -/

theorem isAlphanum_iff : character.isAlphanum = true ↔
    (character.isUpper = true ∨ character.isLower = true) ∨ character.isDigit = true := by
  rw [← Bool.or_eq_true, ← Bool.or_eq_true]
  exact Iff.rfl

theorem lt_of_isAlphanum (isAlphanum : character.isAlphanum = true) : character.toNat < 128 := by
  have ofBounds {least most : UInt32} (inRange : (decide (least ≤ character.val) &&
      decide (character.val ≤ most)) = true) : character.toNat ≤ most.toNat := by
    rw [Bool.and_eq_true, decide_eq_true_eq, decide_eq_true_eq] at inRange
    exact UInt32.le_iff_toNat_le.mp inRange.2
  rcases isAlphanum_iff.mp isAlphanum with (isCapital | isSmall) | isDigit
  · have atMost : character.toNat ≤ 90 := (of_decide_eq_true isCapital).2
    omega
  · have atMost : character.toNat ≤ 122 := ofBounds isSmall
    omega
  · have atMost : character.toNat ≤ 57 := ofBounds isDigit
    omega

/-- What holds of every ASCII letter and digit holds of a given one. -/
theorem of_isAlphanum (property : Char → Prop)
    (all : ∀ code : Fin 128, (Char.ofNat code).isAlphanum = true → property (Char.ofNat code))
    (isAlphanum : character.isAlphanum = true) : property character := by
  have ofThis := all ⟨character.toNat, lt_of_isAlphanum isAlphanum⟩
  rw [Char.ofNat_toNat] at ofThis
  exact ofThis isAlphanum

theorem isAlphanum_toUpper (isAlphanum : character.isAlphanum = true) :
    character.toUpper.isAlphanum = true :=
  of_isAlphanum (fun other => other.toUpper.isAlphanum = true) (by decide) isAlphanum

theorem isAlphanum_toLower (isAlphanum : character.isAlphanum = true) :
    character.toLower.isAlphanum = true :=
  of_isAlphanum (fun other => other.toLower.isAlphanum = true) (by decide) isAlphanum

/-! ## Words -/

theorem of_mem_take_runLength {test : Char → Bool}
    (occurs : character ∈ text.take (runLength test text)) : test character = true := by
  have isRun : text.take (runLength test text) = text.takeWhile test :=
    (List.prefix_iff_eq_take.mp (List.takeWhile_prefix test)).symm
  rw [isRun] at occurs
  exact List.mem_takeWhile_imp occurs

/-- A word consists of letters and digits. -/
theorem isAlphanum_of_mem_take (occurs : character ∈ text.take (wordLength text)) :
    character.isAlphanum = true := by
  have ofCapital (isCapital : character.isUpper = true) : character.isAlphanum = true :=
    isAlphanum_iff.mpr (Or.inl (Or.inl isCapital))
  have ofSmall (isSmall : character.isLower = true) : character.isAlphanum = true :=
    isAlphanum_iff.mpr (Or.inl (Or.inr isSmall))
  unfold wordLength at occurs
  dsimp only at occurs
  split at occurs
  · rename_i noCapitals
    rw [noCapitals, List.drop_zero] at occurs
    split at occurs
    · exact isAlphanum_iff.mpr (Or.inr (of_mem_take_runLength occurs))
    · exact ofSmall (of_mem_take_runLength occurs)
  · split at occurs
    · exact ofCapital (of_mem_take_runLength occurs)
    · split at occurs
      · rw [List.take_add] at occurs
        rcases List.mem_append.mp occurs with isFirst | isLater
        · exact ofCapital (of_mem_take_runLength isFirst)
        · exact ofSmall (of_mem_take_runLength isLater)
      · have isShorter :=
          List.take_subset_take_left text (Nat.sub_le (runLength Char.isUpper text) 1)
        exact ofCapital (of_mem_take_runLength (isShorter occurs))

/-- A word is not empty where a letter or digit begins. -/
theorem wordLength_pos {rest : List Char} (isName : character.isAlphanum = true) :
    0 < wordLength (character :: rest) := by
  have runs {test : Char → Bool} (begins : test character = true) :
      0 < runLength test (character :: rest) := by
    simp [runLength, List.takeWhile_cons_of_pos begins]
  unfold wordLength
  dsimp only
  split
  · rename_i noCapitals
    rw [noCapitals, List.drop_zero]
    split
    · rename_i noSmalls
      have noCapital := mt (@runs Char.isUpper) (by omega)
      have noSmall := mt (@runs Char.isLower) (by omega)
      exact runs ((isAlphanum_iff.mp isName).resolve_left (not_or.mpr ⟨noCapital, noSmall⟩))
    · omega
  · split
    · omega
    · split <;> omega

/-- The words of a text are its letters and digits. -/
theorem flatten_words (text : List Char) : (words text).flatten = text.filter Char.isAlphanum := by
  induction text using words.induct with
  | case1 => simp [words]
  | case2 character rest isName tail ih =>
      have isPositive : 0 < wordLength (character :: rest) := wordLength_pos isName
      have inWord : ∀ other ∈ rest.take tail, other.isAlphanum = true := by
        intro other occurs
        refine @isAlphanum_of_mem_take other (character :: rest) ?_
        rw [← Nat.sub_add_cancel isPositive, List.take_succ_cons]
        exact List.mem_cons_of_mem _ occurs
      have isSplit : rest.filter Char.isAlphanum =
          rest.take tail ++ (rest.drop tail).filter Char.isAlphanum := by
        have ofParts := @List.filter_append _ Char.isAlphanum (rest.take tail) (rest.drop tail)
        rwa [List.take_append_drop, List.filter_eq_self.mpr inWord] at ofParts
      have keeps : character.isAlphanum = true := isName
      rw [words, if_pos isName, List.filter_cons_of_pos keeps, isSplit, ← ih]
      rfl
  | case3 character rest noName ih =>
      rw [words, if_neg noName, ih, List.filter_cons_of_neg (by exact noName)]

theorem isAlphanum_of_mem_words {word : List Char} (isWord : word ∈ words text)
    (occurs : character ∈ word) : character.isAlphanum = true := by
  have inWords := List.mem_flatten_of_mem isWord occurs
  rw [flatten_words] at inWords
  exact (List.mem_filter.mp inWords).2

theorem flatten_map_words (change : Char → Char) (text : List Char) :
    ((words text).map (List.map change)).flatten = (text.filter Char.isAlphanum).map change := by
  rw [← flatten_words, List.map_flatten]

/-! ## Spellings -/

/-- The spelling of type names holds letters and digits only. -/
theorem isAlphanum_of_mem_pascalCase (occurs : character ∈ (pascalCase name).toList) :
    character.isAlphanum = true := by
  rw [pascalCase, String.toList_ofList] at occurs
  obtain ⟨_, isSpelled, occurs⟩ := List.mem_flatten.mp occurs
  obtain ⟨word, isWord, rfl⟩ := List.mem_map.mp isSpelled
  cases word with
  | nil => cases occurs
  | cons first rest =>
      rcases List.mem_cons.mp occurs with rfl | isLater
      · exact isAlphanum_toUpper (isAlphanum_of_mem_words isWord List.mem_cons_self)
      · obtain ⟨other, inRest, rfl⟩ := List.mem_map.mp isLater
        exact isAlphanum_toLower
          (isAlphanum_of_mem_words isWord (List.mem_cons_of_mem _ inRest))

/-- Whether a name is one that a type can get: there is something of it, and only letters and
digits. -/
structure IsTypeName (name : String) : Prop where
  ne_empty : name ≠ ""
  isAlphanum : ∀ character ∈ name.toList, character.isAlphanum = true

theorem isTypeName_pascalCase (nonempty : pascalCase name ≠ "") : IsTypeName (pascalCase name) :=
  ⟨nonempty, fun _ => isAlphanum_of_mem_pascalCase⟩

theorem filter_joinWords (parts : List (List Char)) :
    (joinWords parts).filter Char.isAlphanum = parts.flatten.filter Char.isAlphanum := by
  induction parts with
  | nil => rfl
  | cons part rest ih =>
      cases rest with
      | nil => simp [joinWords]
      | cons next more =>
          have noMark : ['_'].filter Char.isAlphanum = [] := by decide
          rw [joinWords, List.intercalate_cons_cons, List.flatten_cons, List.filter_append,
            List.filter_append, List.filter_append, ← ih, noMark, List.append_nil]
          rfl

theorem of_mem_joinWords {parts : List (List Char)} (occurs : character ∈ joinWords parts) :
    character = '_' ∨ character ∈ parts.flatten := by
  induction parts with
  | nil => cases occurs
  | cons part rest ih =>
      cases rest with
      | nil => exact Or.inr (by simpa [joinWords] using occurs)
      | cons next more =>
          rw [joinWords, List.intercalate_cons_cons, List.mem_append, List.mem_append,
            List.mem_singleton] at occurs
          rw [List.flatten_cons, List.mem_append]
          rcases occurs with (inPart | isMark) | isLater
          · exact Or.inr (Or.inl inPart)
          · exact Or.inl isMark
          · exact (ih isLater).imp_right Or.inr

/-- Words that are changed and joined have nothing but their letters and digits and what joins
them. -/
theorem of_mem_joinWords_words (change : Char → Char)
    (occurs : character ∈ joinWords ((words text).map (List.map change))) :
    character = '_' ∨
      ∃ original, original.isAlphanum = true ∧ character = change original := by
  refine (of_mem_joinWords occurs).imp_right fun inWords => ?_
  rw [flatten_map_words] at inWords
  obtain ⟨original, isOriginal, rfl⟩ := List.mem_map.mp inWords
  exact ⟨original, (List.mem_filter.mp isOriginal).2, rfl⟩

/-- The spelling of module names holds letters, digits and underscores only. -/
theorem of_mem_snakeCase (occurs : character ∈ (snakeCase name).toList) :
    character = '_' ∨ character.isAlphanum = true := by
  rw [snakeCase, String.toList_ofList] at occurs
  refine (of_mem_joinWords_words Char.toLower occurs).imp_right ?_
  rintro ⟨original, isAlphanum, rfl⟩
  exact isAlphanum_toLower isAlphanum

/-- Words that are changed and joined still have the letters and digits of the text. -/
theorem filter_joinWords_words {change : Char → Char} (text : List Char)
    (keeps : ∀ other : Char, other.isAlphanum = true → (change other).isAlphanum = true) :
    (joinWords ((words text).map (List.map change))).filter Char.isAlphanum =
      (text.filter Char.isAlphanum).map change := by
  rw [filter_joinWords, flatten_map_words, List.filter_eq_self]
  intro other occurs
  obtain ⟨original, isOriginal, rfl⟩ := List.mem_map.mp occurs
  exact keeps original (List.mem_filter.mp isOriginal).2

/-- The letters and digits of a name are all in its module name, in small letters. -/
theorem filter_snakeCase (name : String) :
    (snakeCase name).toList.filter Char.isAlphanum =
      (name.toList.filter Char.isAlphanum).map Char.toLower := by
  rw [snakeCase, String.toList_ofList]
  exact filter_joinWords_words name.toList fun _ => isAlphanum_toLower

/-- Whether a name consists of ASCII letters, digits and underscores. -/
def IsPlain (name : String) : Prop :=
  ∀ character ∈ name.toList, character = '_' ∨ character.isAlphanum = true

-- Without the name of the instance all characters might be tried.
instance : DecidablePred IsPlain := fun name =>
  List.decidableBAll (fun character => character = '_' ∨ character.isAlphanum = true) name.toList

theorem IsPlain.isAscii (isPlain : IsPlain name) :
    ∀ character ∈ name.toList, character.toNat < 128 := by
  intro character occurs
  rcases isPlain character occurs with rfl | isAlphanum
  · decide
  · exact lt_of_isAlphanum isAlphanum

theorem ne_nil_of_mem_words {word : List Char} (isWord : word ∈ words text) : word ≠ [] := by
  induction text using words.induct with
  | case1 => simp [words] at isWord
  | case2 character rest isName tail ih =>
      rw [words, if_pos isName, List.mem_cons] at isWord
      rcases isWord with rfl | isLater
      · exact List.cons_ne_nil _ _
      · exact ih isLater
  | case3 character rest noName ih =>
      rw [words, if_neg noName] at isWord
      exact ih isWord

theorem head?_joinWords {parts : List (List Char)} (nonempty : [] ∉ parts) :
    (joinWords parts).head? = parts.flatten.head? := by
  cases parts with
  | nil => rfl
  | cons part others =>
      obtain ⟨first, rest, rfl⟩ := List.exists_cons_of_ne_nil
        fun isEmpty => nonempty (isEmpty ▸ List.mem_cons_self)
      cases others with
      | nil => simp [joinWords]
      | cons next more =>
          rw [joinWords, List.intercalate_cons_cons]
          rfl

/-- Words that are changed and joined begin with the first letter or digit of the text. -/
theorem head?_joinWords_words (change : Char → Char) (text : List Char) :
    (joinWords ((words text).map (List.map change))).head? =
      (text.filter Char.isAlphanum).head?.map change := by
  rw [head?_joinWords, flatten_map_words, List.head?_map]
  intro isEmpty
  obtain ⟨word, isWord, unchanged⟩ := List.mem_map.mp isEmpty
  exact ne_nil_of_mem_words isWord (List.map_eq_nil_iff.mp unchanged)

/-- A module name begins with a letter or digit. -/
theorem isAlphanum_of_head_snakeCase {rest : List Char}
    (begins : (snakeCase name).toList = character :: rest) : character.isAlphanum = true := by
  have isHead : (snakeCase name).toList.head? =
      (name.toList.filter Char.isAlphanum).head?.map Char.toLower := by
    rw [snakeCase, String.toList_ofList]
    exact head?_joinWords_words Char.toLower name.toList
  rw [begins, List.head?_cons] at isHead
  obtain ⟨original, isFirst, rfl⟩ := Option.map_eq_some_iff.mp isHead.symm
  exact isAlphanum_toLower (List.mem_filter.mp (List.mem_of_mem_head? isFirst)).2

end Naming

namespace Unicode

theorem lowerFrom_of_ascii {before text : List Char}
    (areAscii : ∀ character ∈ text, character.toNat < 128) :
    lowerFrom before text = text.map Char.toLower := by
  induction text generalizing before with
  | nil => rfl
  | cons character rest ih =>
      obtain ⟨isAscii, others⟩ := List.forall_mem_cons.mp areAscii
      have noDotted : character.toNat ≠ 0x130 := by omega
      have noSigma : character.toNat ≠ 0x3a3 := by omega
      rw [lowerFrom, if_neg noDotted, if_neg noSigma, lowerCharacter, if_pos isAscii, ih others]
      rfl

/-- No other character becomes a slash in lower case. -/
theorem eq_of_lowerCharacter_eq_slash {character : Char}
    (isSlash : lowerCharacter character = '/') : character = '/' := by
  have farAway : ∀ series ∈ lowerSeries, 47 < (series.1 : Int) + series.2.2.2 := by
    decide +kernel
  unfold lowerCharacter at isSlash
  split at isSlash
  · rename_i isAscii
    have all : ∀ code : Fin 128, (Char.ofNat code).toLower = '/' → Char.ofNat code = '/' := by
      decide
    have isThis := all ⟨character.toNat, isAscii⟩
    rw [Char.ofNat_toNat] at isThis
    exact isThis isSlash
  · split at isSlash
    · rename_i first last step distance found
      have isBound : 47 < (first : Int) + distance := farAway _ (List.mem_of_find?_eq_some found)
      have inSeries := List.find?_some found
      simp only [Bool.and_eq_true, decide_eq_true_eq] at inSeries
      by_cases isValid : (character.toNat + distance).toNat.isValidChar
      · have isCode := congrArg Char.toNat isSlash
        have noSlash : '/'.toNat = 47 := rfl
        rw [Char.ofNat, dif_pos isValid] at isCode
        change (character.toNat + distance).toNat = _ at isCode
        omega
      · rw [Char.ofNat, dif_neg isValid] at isSlash
        exact absurd isSlash (by decide)
    · exact isSlash

theorem slash_mem_of_mem_lowerFrom {before text : List Char}
    (occurs : '/' ∈ lowerFrom before text) : '/' ∈ text := by
  induction text generalizing before with
  | nil => cases occurs
  | cons character rest ih =>
      rw [lowerFrom, List.mem_append] at occurs
      rcases occurs with isHere | isLater
      · split at isHere
        · exact absurd isHere (by decide)
        · split at isHere
          · split at isHere <;> exact absurd isHere (by decide)
          · rw [List.mem_singleton] at isHere
            exact List.mem_cons.mpr (Or.inl (eq_of_lowerCharacter_eq_slash isHere.symm).symm)
      · exact List.mem_cons_of_mem _ (ih isLater)

end Unicode

end Typeloom
