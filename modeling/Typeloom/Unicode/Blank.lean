import Typeloom.Unicode.Runs

/-!
# Blank characters

The characters that are trimmed from the ends of a text: the ASCII blanks, the four ASCII
separators from code point 28 on, and the blanks of other scripts.
-/

namespace Typeloom

namespace Unicode

/-- The blank characters above the ASCII range. -/
def blankRuns : List Nat := [
  5, 1, 26, 1, 5599, 1, 2431, 11, 29, 2, 5, 1, 47, 1, 4000, 1]

/-- The blank characters of the ASCII range: tab to carriage return, the four separators and
the space. -/
def isAsciiBlank (character : Char) : Bool :=
  (9 ≤ character.toNat && character.toNat ≤ 13) || (28 ≤ character.toNat && character.toNat ≤ 32)

/-- Whether a character is blank. -/
def isBlank (character : Char) : Bool :=
  inTable isAsciiBlank blankRuns character

def trimEnd (text : List Char) : List Char :=
  (text.reverse.dropWhile isBlank).reverse

def trim (text : List Char) : List Char :=
  trimEnd (text.dropWhile isBlank)

theorem mem_of_mem_trim {text : List Char} {character : Char} (occurs : character ∈ trim text) :
    character ∈ text := by
  have inReverse := (List.dropWhile_suffix _).subset (List.mem_reverse.mp occurs)
  exact (List.dropWhile_suffix _).subset (List.mem_reverse.mp inReverse)

/-- Whether a text neither begins nor ends with a blank. -/
def IsTrimmed (text : List Char) : Prop :=
  (∀ character ∈ text.head?, isBlank character = false) ∧
    ∀ character ∈ text.getLast?, isBlank character = false

instance (text : List Char) : Decidable (IsTrimmed text) :=
  @instDecidableAnd _ _ (Option.decidableForallMem _) (Option.decidableForallMem _)

theorem dropWhile_isBlank_append {blanks text : List Char}
    (areBlank : ∀ character ∈ blanks, isBlank character = true)
    (begins : ∀ character ∈ text.head?, isBlank character = false) :
    (blanks ++ text).dropWhile isBlank = text := by
  rw [List.dropWhile_append_of_pos areBlank]
  cases text with
  | nil => rfl
  | cons first rest => exact List.dropWhile_cons_of_neg (by simp [begins first rfl])

/-- Blanks around a trimmed text are trimmed away. -/
theorem trim_surrounded {before text after : List Char} (trimmed : IsTrimmed text)
    (blankBefore : ∀ character ∈ before, isBlank character = true)
    (blankAfter : ∀ character ∈ after, isBlank character = true) :
    trim (before ++ text ++ after) = text := by
  obtain ⟨begins, ends⟩ := trimmed
  have blankReversed : ∀ character ∈ after.reverse, isBlank character = true :=
    fun character occurs => blankAfter character (List.mem_reverse.mp occurs)
  rw [trim, trimEnd]
  cases text with
  | nil =>
      have allBlank : ∀ character ∈ before ++ after, isBlank character = true :=
        fun character occurs =>
          (List.mem_append.mp occurs).elim (blankBefore character) (blankAfter character)
      rw [List.append_nil, ← List.append_nil (before ++ after),
        dropWhile_isBlank_append allBlank (by simp)]
      rfl
  | cons first rest =>
      rw [List.append_assoc, dropWhile_isBlank_append blankBefore (by simpa using begins),
        List.reverse_append, dropWhile_isBlank_append blankReversed
          (by simpa only [List.head?_reverse] using ends), List.reverse_reverse]

/-- Every character that core calls whitespace is blank. -/
theorem isBlank_of_isWhitespace {character : Char} (isWhitespace : character.isWhitespace) :
    isBlank character := by
  simp only [Char.isWhitespace, Bool.or_eq_true, decide_eq_true_eq] at isWhitespace
  rcases isWhitespace with ((same | same) | same) | same <;> subst same <;> decide

end Unicode

end Typeloom
