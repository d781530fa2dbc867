import Typeloom.Model.Analysis
import Typeloom.Proofs.Naming.Identifiers

/-!
# Names of attributes and members

The name of an attribute consists of word characters, does not begin with a digit and is no keyword.
These are just the names that stay as they are when they become names of attributes once more, and
those of them that are ASCII are identifiers.  The name of the member for a text begins with a
capital, capitals, digits and underscores follow, and the letters and digits of the text are all in
it.
-/

namespace Typeloom

namespace Naming

variable {character : Char} {name property : String} {text : List Char}

/-! ## Attributes -/

/-- Whether a name is one that an attribute can get. -/
structure IsAttributeName (name : String) : Prop where
  ne_empty : name ≠ ""
  isWord : ∀ character ∈ name.toList, Unicode.isWordCharacter character = true
  notDigit : beginsWithDigit name.toList = false
  notKeyword : name ∉ pythonKeywords

theorem wordCharacters_ne_nil (property : String) : wordCharacters property ≠ [] := by
  rw [wordCharacters]
  split
  · exact List.cons_ne_nil _ _
  · rename_i nonempty
    simpa [underscored] using nonempty

/-- Every character is one of the property name or an underscore. -/
theorem of_mem_wordCharacters (occurs : character ∈ wordCharacters property) :
    character = '_' ∨
      character ∈ property.toList ∧ Unicode.isWordCharacter character = true := by
  rw [wordCharacters] at occurs
  split at occurs
  · exact Or.inl (List.mem_singleton.mp occurs)
  · obtain ⟨original, isOriginal, rfl⟩ := List.mem_map.mp occurs
    split
    · rename_i isWord
      exact Or.inr ⟨isOriginal, isWord⟩
    · exact Or.inl rfl

theorem of_mem_guardDigit (occurs : character ∈ guardDigit ['_'] text) :
    character = '_' ∨ character ∈ text := by
  rw [guardDigit_eq] at occurs
  split at occurs
  · exact List.mem_cons.mp occurs
  · exact Or.inr occurs

theorem guardDigit_ne_nil (nonempty : text ≠ []) : guardDigit ['_'] text ≠ [] := by
  rw [guardDigit_eq]
  split
  · exact List.cons_ne_nil _ _
  · exact nonempty

theorem beginsWithDigit_guardDigit (text : List Char) :
    beginsWithDigit (guardDigit ['_'] text) = false := by
  rw [guardDigit_eq]
  split
  · exact beginsWithDigit_mark text
  · rename_i noDigit
    exact Bool.eq_false_iff.mpr noDigit

theorem beginsWithDigit_append (nonempty : text ≠ []) (rest : List Char) :
    beginsWithDigit (text ++ rest) = beginsWithDigit text := by
  rw [beginsWithDigit, List.head?_append_of_ne_nil _ nonempty, beginsWithDigit]

/-- An attribute has the characters of its property with underscores between and around them. -/
theorem of_mem_attributeName (occurs : character ∈ (attributeName property).toList) :
    character = '_' ∨
      character ∈ property.toList ∧ Unicode.isWordCharacter character = true := by
  have ofGuarded (isGuarded : character ∈ guardDigit ['_'] (wordCharacters property)) :
      character = '_' ∨
        character ∈ property.toList ∧ Unicode.isWordCharacter character = true :=
    (of_mem_guardDigit isGuarded).elim Or.inl of_mem_wordCharacters
  rw [attributeName_eq] at occurs
  split at occurs
  · rw [String.toList_append, String.toList_ofList] at occurs
    rcases List.mem_append.mp occurs with isGuarded | isMark
    · exact ofGuarded isGuarded
    · exact Or.inl (List.mem_singleton.mp isMark)
  · rw [String.toList_ofList] at occurs
    exact ofGuarded occurs

/-- Every property gets a name that an attribute can have. -/
theorem isAttributeName_attributeName (property : String) :
    IsAttributeName (attributeName property) := by
  have nonempty := guardDigit_ne_nil (wordCharacters_ne_nil property)
  have noDigit := beginsWithDigit_guardDigit (wordCharacters property)
  have isWord : ∀ character ∈ (attributeName property).toList,
      Unicode.isWordCharacter character = true := by
    intro character occurs
    rcases of_mem_attributeName occurs with rfl | ⟨-, isWord⟩
    · decide
    · exact isWord
  rw [attributeName_eq] at isWord ⊢
  split at isWord
  · rename_i isKeyword
    rw [if_pos isKeyword]
    refine ⟨by simp, isWord, ?_, fun isKeywordToo => ?_⟩
    · rw [String.toList_append, String.toList_ofList, beginsWithDigit_append nonempty, noDigit]
    -- No keyword ends with the underscore that makes it an attribute.
    · rw [← String.ofList_toList (s := _ ++ "_")] at isKeywordToo
      exact (ends_of_mem_keywords isKeywordToo).2 (by simp)
  · rename_i notKeyword
    rw [if_neg notKeyword]
    refine ⟨?_, isWord, ?_, notKeyword⟩
    · rwa [Ne, String.ofList_eq_empty_iff]
    · rw [String.toList_ofList, noDigit]

theorem IsAttributeName.wordCharacters_eq (isAttribute : IsAttributeName name) :
    wordCharacters name = name.toList := by
  have nonempty : ¬name.toList.isEmpty = true := by simpa using isAttribute.ne_empty
  rw [wordCharacters, if_neg nonempty, underscored]
  refine (List.map_congr_left fun character occurs => ?_).trans (List.map_id _)
  exact if_pos (isAttribute.isWord character occurs)

/-- The names that an attribute can have are those that stay as they are. -/
theorem attributeName_eq_self_iff : attributeName name = name ↔ IsAttributeName name := by
  constructor
  · intro same
    exact same ▸ isAttributeName_attributeName name
  · intro isAttribute
    have unguarded : guardDigit ['_'] (wordCharacters name) = name.toList := by
      rw [isAttribute.wordCharacters_eq, guardDigit_eq, if_neg (by simp [isAttribute.notDigit])]
    rw [attributeName_eq, unguarded, String.ofList_toList, if_neg isAttribute.notKeyword]

/-- An attribute of ASCII characters has an identifier for its name that is no keyword. -/
theorem IsAttributeName.isUsable (isAttribute : IsAttributeName name)
    (isAscii : ∀ character ∈ name.toList, character.toNat < 128) : IsUsable name := by
  refine ⟨?_, isAttribute.notKeyword⟩
  obtain ⟨first, rest, characters⟩ := List.exists_cons_of_ne_nil
    (mt String.toList_eq_nil_iff.mp isAttribute.ne_empty)
  have isPlain : ∀ character ∈ name.toList, character.isAlphanum = true ∨ character = '_' :=
    fun character occurs =>
      (Unicode.isWordCharacter_iff_of_ascii (isAscii character occurs)).mp
        (isAttribute.isWord character occurs)
  have noDigit := isAttribute.notDigit
  rw [characters] at isAscii isPlain noDigit
  have firstIsAscii := isAscii first List.mem_cons_self
  have notDigit : ¬first.isDigit = true := by
    rw [← Unicode.isDigit_of_ascii firstIsAscii]
    simpa [beginsWithDigit] using noDigit
  refine ⟨first, rest, characters, ?_, fun character occurs =>
    isPlain character (List.mem_cons_of_mem _ occurs)⟩
  rcases isPlain first List.mem_cons_self with isAlphanum | isMark
  · exact (isLetter_iff isAlphanum).mpr notDigit
  · exact Or.inr isMark

/-! ## Members -/

/-- Whether a name consists of capitals, digits and underscores and begins with a capital. -/
def IsConstantName (name : String) : Prop :=
  ∃ first rest, name.toList = first :: rest ∧ first.isUpper = true ∧
    ∀ character ∈ rest, (character.isUpper = true ∨ character.isDigit = true) ∨ character = '_'

theorem of_mem_constantCase (occurs : character ∈ (constantCase name).toList) :
    (character.isUpper = true ∨ character.isDigit = true) ∨ character = '_' := by
  rw [constantCase, String.toList_ofList] at occurs
  rcases of_mem_joinWords_words Char.toUpper occurs with isMark | ⟨original, isAlphanum, rfl⟩
  · exact Or.inr isMark
  · exact Or.inl (isUpper_or_isDigit_toUpper isAlphanum)

/-- The letters and digits of a name are all in its constant name, in capitals. -/
theorem filter_constantCase (name : String) :
    (constantCase name).toList.filter Char.isAlphanum =
      (name.toList.filter Char.isAlphanum).map Char.toUpper := by
  rw [constantCase, String.toList_ofList]
  exact filter_joinWords_words name.toList fun _ => isAlphanum_toUpper

theorem head?_constantCase (name : String) :
    (constantCase name).toList.head? =
      (name.toList.filter Char.isAlphanum).head?.map Char.toUpper := by
  rw [constantCase, String.toList_ofList]
  exact head?_joinWords_words Char.toUpper name.toList

theorem resumes_constantCase (name : String) : Resumes (constantCase name).toList := by
  intro first begins
  rw [head?_constantCase] at begins
  obtain ⟨original, isFirst, rfl⟩ := Option.map_eq_some_iff.mp begins
  exact isUpper_or_isDigit_toUpper (List.mem_filter.mp (List.mem_of_mem_head? isFirst)).2

theorem memberNameOfText_eq_empty (noWords : (constantCase name).toList = []) :
    memberNameOfText name = "EMPTY" := by
  rw [memberNameOfText, String.toList_eq_nil_iff.mp noWords]
  rfl

/-- A digit at the beginning of a constant name gets a capital in front. -/
theorem toList_memberNameOfText (begins : (constantCase name).toList = character :: text) :
    (memberNameOfText name).toList =
      if character.isDigit then 'V' :: '_' :: character :: text else character :: text := by
  have nonempty : ¬(constantCase name).isEmpty = true := by
    simp [String.isEmpty_iff, ← String.toList_eq_nil_iff, begins]
  have isFirst := resumes_constantCase name character (List.head?_eq_some_iff.mpr ⟨text, begins⟩)
  have isAscii := lt_of_isAlphanum (isAlphanum_iff.mpr (isFirst.imp_left Or.inl))
  rw [memberNameOfText, if_neg nonempty, String.toList_ofList, begins, guardDigit,
    Unicode.isDigit_of_ascii isAscii]
  rfl

theorem isConstantName_memberNameOfText (value : String) :
    IsConstantName (memberNameOfText value) := by
  cases characters : (constantCase value).toList with
  | nil =>
      rw [memberNameOfText_eq_empty characters]
      exact ⟨'E', "MPTY".toList, rfl, rfl, by simp⟩
  | cons first rest =>
      have areCapital : ∀ character ∈ first :: rest,
          (character.isUpper = true ∨ character.isDigit = true) ∨ character = '_' :=
        characters ▸ fun _ => of_mem_constantCase
      have begins : first.isUpper = true ∨ first.isDigit = true :=
        resumes_constantCase value first (List.head?_eq_some_iff.mpr ⟨rest, characters⟩)
      rw [IsConstantName, toList_memberNameOfText characters]
      split
      · refine ⟨'V', '_' :: first :: rest, rfl, rfl, ?_⟩
        exact List.forall_mem_cons.mpr ⟨Or.inr rfl, areCapital⟩
      · rename_i noDigit
        exact ⟨first, rest, rfl, begins.resolve_right noDigit,
          fun character occurs => areCapital character (List.mem_cons_of_mem _ occurs)⟩

/-- The name of a member ends with the letters and digits of its text. -/
theorem suffix_memberNameOfText (value : String) :
    (value.toList.filter Char.isAlphanum).map Char.toUpper <:+
      (memberNameOfText value).toList.filter Char.isAlphanum := by
  rw [← filter_constantCase]
  cases characters : (constantCase value).toList with
  | nil => exact List.nil_suffix
  | cons first rest =>
      rw [toList_memberNameOfText characters]
      split
      · exact List.suffix_cons 'V' _
      · exact List.suffix_rfl

/-- The attribute for a property name of ASCII characters has an identifier for its name that is no
keyword.  The name of an attribute is its own attribute name, whatever its characters, and no other
names are.  The name of the member for a text has capitals, digits and underscores behind a capital,
and ends with the letters and digits of the text. -/
theorem names_of_attributes_and_members :
    (∀ property : String, (∀ character ∈ property.toList, character.toNat < 128) →
        IsUsable (attributeName property)) ∧
      (∀ property, attributeName (attributeName property) = attributeName property) ∧
      (∀ name, attributeName name = name ↔ IsAttributeName name) ∧
      ∀ value, IsConstantName (Analysis.derivedMemberName (.text value)) ∧
        (value.toList.filter Char.isAlphanum).map Char.toUpper <:+
          (Analysis.derivedMemberName (.text value)).toList.filter Char.isAlphanum := by
  refine ⟨fun property isAscii => ?_, fun property => ?_, fun _ => attributeName_eq_self_iff,
    fun value => ⟨isConstantName_memberNameOfText value, suffix_memberNameOfText value⟩⟩
  · refine (isAttributeName_attributeName property).isUsable fun character occurs => ?_
    rcases of_mem_attributeName occurs with rfl | ⟨ofProperty, -⟩
    · decide
    · exact isAscii character ofProperty
  · exact attributeName_eq_self_iff.mpr (isAttributeName_attributeName property)

theorem names_of_attributes_and_members_class :
    (∀ character ∈ "class".toList, character.toNat < 128) ∧
      attributeName "class" = "class_" ∧ IsUsable "class_" := by
  have isAscii : ∀ character ∈ "class".toList, character.toNat < 128 := by simp
  have isMarked : attributeName "class" = "class_" := by decide +kernel
  exact ⟨isAscii, isMarked, isMarked ▸ names_of_attributes_and_members.1 "class" isAscii⟩

end Naming

end Typeloom
