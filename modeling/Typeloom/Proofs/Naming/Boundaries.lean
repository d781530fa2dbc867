import Typeloom.Proofs.Generate.DistinctPaths
import Typeloom.Proofs.Naming.Identifiers

/-!
# Where words end

Whether a word of a name ends between two of its letters and digits can be told from the two
characters and the one behind them.  At everything that is no letter or digit all words end.
-/

namespace Typeloom

namespace Naming

variable {character next mark : Char} {before behind rest text : List Char}

/-! ## Kinds of characters -/

/-- A letter or digit is of one kind only. -/
inductive HasKind (character : Char) : Prop
  | capital (isUpper : character.isUpper = true) (notLower : character.isLower = false)
      (notDigit : character.isDigit = false)
  | small (notUpper : character.isUpper = false) (isLower : character.isLower = true)
      (notDigit : character.isDigit = false)
  | digit (notUpper : character.isUpper = false) (notLower : character.isLower = false)
      (isDigit : character.isDigit = true)

theorem hasKind_of_isAlphanum (isAlphanum : character.isAlphanum = true) : HasKind character := by
  have kinds := of_isAlphanum (fun other =>
    (other.isUpper = true ∧ other.isLower = false ∧ other.isDigit = false) ∨
      (other.isUpper = false ∧ other.isLower = true ∧ other.isDigit = false) ∨
      (other.isUpper = false ∧ other.isLower = false ∧ other.isDigit = true)) (by decide) isAlphanum
  rcases kinds with ⟨isUpper, notLower, notDigit⟩ | ⟨notUpper, isLower, notDigit⟩ |
    ⟨notUpper, notLower, isDigit⟩
  · exact .capital isUpper notLower notDigit
  · exact .small notUpper isLower notDigit
  · exact .digit notUpper notLower isDigit

theorem notUpper_of_isLower (isLower : character.isLower = true) : character.isUpper = false := by
  cases hasKind_of_isAlphanum (isAlphanum_iff.mpr (.inl (.inr isLower))) with
  | capital isUpper notLower notDigit => exact absurd isLower (Bool.eq_false_iff.mp notLower)
  | small notUpper isLower notDigit => exact notUpper
  | digit notUpper notLower isDigit => exact notUpper

/-! ## The length of a word -/

theorem runLength_cons (test : Char → Bool) (character : Char) (rest : List Char) :
    runLength test (character :: rest) =
      if test character = true then runLength test rest + 1 else 0 := by
  rw [runLength, List.takeWhile_cons]
  split <;> rfl

theorem runLength_eq_zero_iff {test : Char → Bool} :
    runLength test text = 0 ↔ text.head?.any test = false := by
  cases text with
  | nil => exact iff_of_true rfl rfl
  | cons first more =>
      rw [runLength_cons]
      cases holds : test first <;> simp [holds]

theorem isAlpha_iff :
    character.isAlpha = true ↔ character.isUpper = true ∨ character.isLower = true :=
  Iff.of_eq (Bool.or_eq_true _ _)

/-- Whether a word ends between two letters or digits that stand next to each other, given what
stands behind them. -/
def Divides (character next : Char) (behind : List Char) : Prop :=
  (character.isAlpha = true ∧ next.isDigit = true ∨
      character.isDigit = true ∧ next.isAlpha = true) ∨
    (character.isLower = true ∧ next.isUpper = true) ∨
    (character.isUpper = true ∧ next.isUpper = true ∧ behind.head?.any Char.isLower = true)

instance : Decidable (Divides character next behind) :=
  inferInstanceAs (Decidable (_ ∨ _ ∨ _))

/-- The last one of several capitals belongs to the small letters behind it. -/
theorem wordLength_capitals (isUpper : character.isUpper = true) (isUpper' : next.isUpper = true) :
    wordLength (character :: next :: behind) =
      if behind.head?.any Char.isLower = true then 1 else wordLength (next :: behind) + 1 := by
  simp only [wordLength, runLength_cons, isUpper, isUpper', if_true, List.drop_succ_cons,
    Nat.add_eq_zero_iff, Nat.one_ne_zero, and_false, if_false, Nat.add_sub_cancel]
  by_cases beginsSmall : behind.head?.any Char.isLower = true
  · have noCapitals : runLength Char.isUpper behind = 0 := by
      obtain ⟨small, isHead, isLower⟩ := (Option.any_eq_true _ _).mp beginsSmall
      rw [runLength_eq_zero_iff, isHead]
      exact notUpper_of_isLower isLower
    have areSmall : runLength Char.isLower behind ≠ 0 := by
      rw [Ne, runLength_eq_zero_iff, beginsSmall]
      exact Bool.noConfusion
    simp [beginsSmall, noCapitals, areSmall]
  · have noSmalls := runLength_eq_zero_iff.mpr (Bool.eq_false_iff.mpr beginsSmall)
    rw [if_neg beginsSmall]
    by_cases noCapitals : runLength Char.isUpper behind = 0
    · simp [noCapitals, noSmalls]
    · split <;> simp [noCapitals]

/-- A word that begins with two letters or digits is its first character, or that character and
the word that begins with the second one. -/
theorem wordLength_cons_cons (isAlphanum : character.isAlphanum = true)
    (isAlphanum' : next.isAlphanum = true) :
    wordLength (character :: next :: behind) =
      if Divides character next behind then 1 else wordLength (next :: behind) + 1 := by
  cases hasKind_of_isAlphanum isAlphanum with
  | capital isUpper notLower notDigit =>
      cases hasKind_of_isAlphanum isAlphanum' with
      | capital isUpper' notLower' notDigit' =>
          rw [wordLength_capitals isUpper isUpper']
          simp [Divides, isUpper, isUpper', notLower, notDigit, notDigit']
      | small => simp [wordLength, Divides, runLength_cons, isAlpha_iff, Nat.add_comm 1, *]
      | digit => simp [wordLength, Divides, runLength_cons, isAlpha_iff, *]
  | small | digit =>
      cases hasKind_of_isAlphanum isAlphanum' <;>
        simp [wordLength, Divides, runLength_cons, isAlpha_iff, *]

/-! ## The words of a text -/

theorem words_of_not_isAlphanum (notName : ¬mark.isAlphanum = true) :
    words (mark :: rest) = words rest := by
  rw [words, if_neg (by exact notName)]

theorem words_of_isAlphanum (isAlphanum : character.isAlphanum = true) :
    words (character :: rest) =
      (character :: rest).take (wordLength (character :: rest)) ::
        words ((character :: rest).drop (wordLength (character :: rest))) := by
  have isPositive : 0 < wordLength (character :: rest) := wordLength_pos isAlphanum
  obtain ⟨length, isLength⟩ := Nat.exists_eq_add_one.mpr isPositive
  rw [words, if_pos (by exact isAlphanum), isLength]
  rfl

/-- The first two letters or digits of a text are in one word, or the first one is a word. -/
theorem words_cons_cons (isAlphanum : character.isAlphanum = true)
    (isAlphanum' : next.isAlphanum = true) :
    words (character :: next :: behind) =
      if Divides character next behind then [character] :: words (next :: behind)
      else (words (next :: behind)).modifyHead (character :: ·) := by
  rw [words_of_isAlphanum isAlphanum, wordLength_cons_cons isAlphanum isAlphanum']
  split
  · rfl
  · rw [words_of_isAlphanum isAlphanum']
    rfl

/-- A letter or digit is a word where no other one follows it. -/
theorem words_cons_of_not_isAlphanum (isAlphanum : character.isAlphanum = true)
    (noneFollows : rest.head?.any Char.isAlphanum = false) :
    words (character :: rest) = [character] :: words rest := by
  have noRun {test : Char → Bool}
      (onlyNames : ∀ other, test other = true → other.isAlphanum = true) :
      runLength test rest = 0 := by
    refine runLength_eq_zero_iff.mpr (Bool.eq_false_iff.mpr fun begins => ?_)
    obtain ⟨other, isHead, holds⟩ := (Option.any_eq_true _ _).mp begins
    rw [isHead] at noneFollows
    exact Bool.eq_false_iff.mp noneFollows (onlyNames other holds)
  have noCapital : runLength Char.isUpper rest = 0 :=
    noRun fun _ isUpper => isAlphanum_iff.mpr (.inl (.inl isUpper))
  have noSmall : runLength Char.isLower rest = 0 :=
    noRun fun _ isLower => isAlphanum_iff.mpr (.inl (.inr isLower))
  have noDigit : runLength Char.isDigit rest = 0 :=
    noRun fun _ isDigit => isAlphanum_iff.mpr (.inr isDigit)
  have isOne : wordLength (character :: rest) = 1 := by
    cases hasKind_of_isAlphanum isAlphanum <;> simp [wordLength, runLength_cons, *]
  rw [words_of_isAlphanum isAlphanum, isOne]
  rfl

/-! ## Boundaries -/

/-- Whether one of the parts of a text ends where the text goes on after `before`. -/
def PartsAfter (parts : List (List Char)) (before : List Char) : Prop :=
  ∃ first rest, parts = first ++ rest ∧ first.flatten = before.filter Char.isAlphanum

theorem partsAfter_cons_mark {parts : List (List Char)} (noName : ¬mark.isAlphanum = true) :
    PartsAfter parts (mark :: before) ↔ PartsAfter parts before := by
  rw [PartsAfter, List.filter_cons_of_neg noName, PartsAfter]

/-- A word of one character does not change where the later ones end. -/
theorem partsAfter_cons_singleton {parts : List (List Char)}
    (isAlphanum : character.isAlphanum = true) :
    PartsAfter ([character] :: parts) (character :: before) ↔ PartsAfter parts before := by
  rw [PartsAfter, List.filter_cons_of_pos isAlphanum]
  constructor
  · rintro ⟨first, rest, isSplit, areFirst⟩
    cases first with
    | nil => cases areFirst
    | cons word first =>
        obtain ⟨rfl, isRest⟩ := List.cons.inj isSplit
        exact ⟨first, rest, isRest, (List.cons.inj areFirst).2⟩
  · rintro ⟨first, rest, rfl, areFirst⟩
    exact ⟨[character] :: first, rest, rfl, congrArg (character :: ·) areFirst⟩

/-- A character that joins the first word takes away the end in front of this word only. -/
theorem partsAfter_cons_modifyHead {parts : List (List Char)} (nonempty : [] ∉ parts)
    (isAlphanum : character.isAlphanum = true) :
    PartsAfter (parts.modifyHead (character :: ·)) (character :: before) ↔
      PartsAfter parts before ∧ before.filter Char.isAlphanum ≠ [] := by
  rw [PartsAfter, List.filter_cons_of_pos isAlphanum]
  constructor
  · rintro ⟨first, rest, isSplit, areFirst⟩
    cases first with
    | nil => cases areFirst
    | cons word first =>
        cases parts with
        | nil => cases isSplit
        | cons part parts =>
            obtain ⟨rfl, isRest⟩ := List.cons.inj isSplit
            have sameRest : part ++ first.flatten = before.filter Char.isAlphanum :=
              (List.cons.inj areFirst).2
            refine ⟨⟨part :: first, rest, congrArg (part :: ·) isRest, sameRest⟩, fun isEmpty => ?_⟩
            rw [← sameRest, List.append_eq_nil_iff] at isEmpty
            exact nonempty (isEmpty.1 ▸ List.mem_cons_self)
  · rintro ⟨⟨first, rest, rfl, areFirst⟩, notEmpty⟩
    cases first with
    | nil => exact absurd areFirst.symm notEmpty
    | cons word first =>
        exact ⟨(character :: word) :: first, rest, rfl, congrArg (character :: ·) areFirst⟩

/-- A word ends behind what follows the first character of a text if and only if it ends there
without this character. -/
theorem partsAfter_words_cons (isLater : character.isAlphanum = true →
      text.head?.any Char.isAlphanum = true → before.filter Char.isAlphanum ≠ []) :
    PartsAfter (words (character :: text)) (character :: before) ↔
      PartsAfter (words text) before := by
  by_cases isAlphanum : character.isAlphanum = true
  · cases follows : text.head?.any Char.isAlphanum with
    | false =>
        rw [words_cons_of_not_isAlphanum isAlphanum follows, partsAfter_cons_singleton isAlphanum]
    | true =>
        obtain ⟨next, isHead, isAlphanum'⟩ := (Option.any_eq_true _ _).mp follows
        obtain ⟨behind, rfl⟩ := List.head?_eq_some_iff.mp isHead
        rw [words_cons_cons isAlphanum isAlphanum']
        split
        · exact partsAfter_cons_singleton isAlphanum
        · rw [partsAfter_cons_modifyHead (fun isWord => ne_nil_of_mem_words isWord rfl) isAlphanum]
          exact and_iff_left (isLater isAlphanum follows)
  · rw [words_of_not_isAlphanum isAlphanum, partsAfter_cons_mark isAlphanum]

/-- Two neighbouring letters or digits are in different words if and only if they and the character
behind them say so. -/
theorem partsAfter_words_iff (isAlphanum : character.isAlphanum = true)
    (isAlphanum' : next.isAlphanum = true) :
    PartsAfter (words (before ++ character :: next :: behind)) (before ++ [character]) ↔
      Divides character next behind := by
  induction before with
  | nil =>
      rw [List.nil_append, words_cons_cons isAlphanum isAlphanum']
      split
      · rename_i divides
        exact iff_of_true ((partsAfter_cons_singleton isAlphanum).mpr ⟨[], _, rfl, rfl⟩) divides
      · rename_i joins
        refine iff_of_false (fun parts => ?_) joins
        have isLater := (partsAfter_cons_modifyHead
          (fun isWord => ne_nil_of_mem_words isWord rfl) isAlphanum).mp parts
        exact isLater.2 rfl
  | cons first before ih =>
      have occurs : character ∈ (before ++ [character]).filter Char.isAlphanum :=
        List.mem_filter.mpr ⟨List.mem_append_right _ List.mem_cons_self, isAlphanum⟩
      rw [List.cons_append, List.cons_append,
        partsAfter_words_cons fun _ _ => List.ne_nil_of_mem occurs, ih]

/-- No word goes beyond what is no letter or digit. -/
theorem partsAfter_words_of_mark (noName : ¬mark.isAlphanum = true) :
    PartsAfter (words (before ++ mark :: behind)) before := by
  induction before with
  | nil => exact ⟨[], _, rfl, rfl⟩
  | cons first before ih =>
      rw [List.cons_append, partsAfter_words_cons]
      · exact ih
      · intro _ follows
        cases before with
        | nil => exact absurd follows noName
        | cons second before =>
            rw [List.filter_cons_of_pos (by exact follows)]
            exact List.cons_ne_nil _ _

/-! ## Names -/

/-- The letters and digits of a name. -/
def lettersOf (name : String) : String :=
  String.ofList (name.toList.filter Char.isAlphanum)

theorem toList_lower_lettersOf (name : String) :
    (Unicode.lower (lettersOf name)).toList =
      (name.toList.filter Char.isAlphanum).map Char.toLower := by
  rw [Unicode.lower, lettersOf, String.toList_ofList, String.toList_ofList,
    Unicode.lowerFrom_of_ascii fun _ occurs => lt_of_isAlphanum (List.mem_filter.mp occurs).2]

theorem lower_pascalCase (name : String) :
    Unicode.lower (pascalCase name) = Unicode.lower (lettersOf name) := by
  have sameWords : (words name.toList).map (fun word => (capitalizedWord word).map Char.toLower) =
      (words name.toList).map (List.map Char.toLower) :=
    List.map_congr_left fun word isWord =>
      lowerWord_capitalizedWord fun _ => isAlphanum_of_mem_words isWord
  rw [← String.toList_inj, toList_lower_lettersOf, Unicode.lower, String.toList_ofList,
    Unicode.lowerFrom_of_ascii fun _ occurs =>
      lt_of_isAlphanum (isAlphanum_of_mem_pascalCase occurs),
    pascalCase, String.toList_ofList, List.map_flatten, List.map_map, ← flatten_map_words]
  exact congrArg List.flatten sameWords

theorem withoutMarks_snakeCase (name : String) :
    String.ofList ((snakeCase name).toList.filter (· ≠ '_')) = Unicode.lower (lettersOf name) := by
  have onlyLetters : (snakeCase name).toList.filter (· ≠ '_') =
      (snakeCase name).toList.filter Char.isAlphanum := by
    refine List.filter_congr fun character occurs => ?_
    rcases of_mem_snakeCase occurs with rfl | isAlphanum
    · decide
    · have differs : character ≠ '_' := by
        rintro rfl
        exact absurd isAlphanum (by decide)
      rw [isAlphanum, decide_eq_true differs]
  rw [onlyLetters, filter_snakeCase, ← String.toList_inj, String.toList_ofList,
    toList_lower_lettersOf]

/-- How a text is cut into parts: at everything that is no letter or digit, and between two
neighbouring letters or digits where they and the character behind them divide them. -/
structure IsDivision (text : List Char) (parts : List (List Char)) : Prop where
  flatten_eq : parts.flatten = text.filter Char.isAlphanum
  ne_nil : ∀ part ∈ parts, part ≠ []
  partsAfter_iff : ∀ before character next behind, text = before ++ character :: next :: behind →
    character.isAlphanum = true → next.isAlphanum = true →
      (PartsAfter parts (before ++ [character]) ↔ Divides character next behind)
  partsAfter_of_mark : ∀ before mark behind, text = before ++ mark :: behind →
    mark.isAlphanum = false → PartsAfter parts before

/-- The words of a text are its letters and digits, cut where two neighbours are divided.  So the
spellings of a name keep its letters and digits up to case, and type names with the same module
name differ at most in case. -/
theorem isDivision_words :
    (∀ text, IsDivision text (words text)) ∧
      (∀ name, Unicode.lower (pascalCase name) = Unicode.lower (lettersOf name) ∧
        String.ofList ((snakeCase name).toList.filter (· ≠ '_')) =
          Unicode.lower (lettersOf name)) ∧
      ∀ name other, IsTypeName name → IsTypeName other →
        Python.moduleName name = Python.moduleName other →
          Unicode.lower name = Unicode.lower other := by
  refine ⟨fun text => ⟨flatten_words text, fun part => ne_nil_of_mem_words, ?_, ?_⟩,
    fun name => ⟨lower_pascalCase name, withoutMarks_snakeCase name⟩, ?_⟩
  · rintro before character next behind rfl isAlphanum isAlphanum'
    exact partsAfter_words_iff isAlphanum isAlphanum'
  · rintro before mark behind rfl noName
    exact partsAfter_words_of_mark (Bool.eq_false_iff.mp noName)
  · intro name other isType isType' same
    have isPlain {name : String} (isType : IsTypeName name) : IsPlain name :=
      fun character occurs => .inr (isType.isAlphanum character occurs)
    have noMark {name : String} (isType : IsTypeName name) : '_' ∉ name.toList :=
      fun occurs => absurd (isType.isAlphanum _ occurs) (by decide)
    exact Python.lower_eq_of_moduleName_eq (isPlain isType) (isPlain isType') (noMark isType)
      (noMark isType') same

theorem isDivision_words_htmlPage :
    (PartsAfter (words "HTMLPage".toList) "HTML".toList ∧
        ¬PartsAfter (words "HTMLPage".toList) "HTM".toList) ∧
      PartsAfter (words "html-page".toList) "html".toList ∧
      Unicode.lower "HTMLPage" = Unicode.lower "HtmlPAGE" :=
  ⟨⟨((isDivision_words.1 _).partsAfter_iff "HTM".toList 'L' 'P' "age".toList rfl rfl rfl).mpr
      (by decide),
    fun parts => absurd
      (((isDivision_words.1 _).partsAfter_iff "HT".toList 'M' 'L' "Page".toList rfl rfl rfl).mp
        parts)
      (by decide)⟩,
    (isDivision_words.1 _).partsAfter_of_mark "html".toList '-' "page".toList rfl rfl,
    isDivision_words.2.2 "HTMLPage" "HtmlPAGE"
      ⟨by decide, List.all_eq_true.mp (by decide +kernel)⟩
      ⟨by decide, List.all_eq_true.mp (by decide +kernel)⟩ (by decide +kernel)⟩

end Naming

end Typeloom
