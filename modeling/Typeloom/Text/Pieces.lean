/-!
# Pieces of a text

A text is cut at the first, the last or every occurrence of a character.
-/

namespace Typeloom

namespace Text

/-- What stands before the first occurrence of a character, and what stands after it, if the
character occurs. -/
def cut (mark : Char) : List Char → List Char × Option (List Char)
  | [] => ([], none)
  | character :: rest =>
      if character = mark then ([], some rest)
      else
        let (before, after?) := cut mark rest
        (character :: before, after?)

/-- What stands before the last occurrence of a character, if it occurs, and what stands after
it. -/
def cutLast (mark : Char) (text : List Char) : Option (List Char) × List Char :=
  let (after, before?) := cut mark text.reverse
  (before?.map List.reverse, after.reverse)

/-- The pieces between all occurrences of a character.  There is one more piece than there are
occurrences. -/
def pieces (mark : Char) : List Char → List (List Char)
  | [] => [[]]
  | character :: rest =>
      if character = mark then [] :: pieces mark rest
      else
        match pieces mark rest with
        | [] => [[character]]
        | piece :: more => (character :: piece) :: more

/-- The pieces with a character between every two of them. -/
def joined (mark : Char) (parts : List (List Char)) : List Char :=
  [mark].intercalate parts

/-- What stands before the first occurrence of a character in a text. -/
def before (mark : Char) (text : String) : String :=
  String.ofList (cut mark text.toList).1

/-- What stands after the first occurrence of a character in a text, if it occurs. -/
def after? (mark : Char) (text : String) : Option String :=
  (cut mark text.toList).2.map String.ofList

def beginsWith (text start : String) : Bool :=
  start.toList.isPrefixOf text.toList

def endsWith (text tail : String) : Bool :=
  tail.toList.isSuffixOf text.toList

def occursIn (part : List Char) : List Char → Bool
  | [] => part.isEmpty
  | character :: rest => part.isPrefixOf (character :: rest) || occursIn part rest

theorem cut_of_notMem {mark : Char} {text : List Char} (notIn : mark ∉ text) :
    cut mark text = (text, none) := by
  induction text with
  | nil => rfl
  | cons character rest ih =>
      obtain ⟨differs, notInRest⟩ := not_or.mp (mt List.mem_cons.mpr notIn)
      rw [cut, if_neg (Ne.symm differs), ih notInRest]

theorem cut_append_cons {mark : Char} {before : List Char} (notIn : mark ∉ before)
    (after : List Char) : cut mark (before ++ mark :: after) = (before, some after) := by
  induction before with
  | nil => rw [List.nil_append, cut, if_pos rfl]
  | cons character rest ih =>
      obtain ⟨differs, notInRest⟩ := not_or.mp (mt List.mem_cons.mpr notIn)
      rw [List.cons_append, cut, if_neg (Ne.symm differs), ih notInRest]

theorem cut_cases (mark : Char) (text : List Char) :
    (mark ∉ text ∧ cut mark text = (text, none)) ∨
      ∃ before after, mark ∉ before ∧ text = before ++ mark :: after ∧
        cut mark text = (before, some after) := by
  by_cases occurs : mark ∈ text
  · obtain ⟨before, after, rfl, notIn⟩ := List.eq_append_cons_of_mem occurs
    exact Or.inr ⟨before, after, notIn, rfl, cut_append_cons notIn after⟩
  · exact Or.inl ⟨occurs, cut_of_notMem occurs⟩

theorem joined_pieces (mark : Char) (text : List Char) :
    joined mark (pieces mark text) = text := by
  induction text with
  | nil => simp [joined, pieces]
  | cons character rest inductionHypothesis =>
      simp only [joined] at inductionHypothesis ⊢
      by_cases same : character = mark
      · subst same
        cases found : pieces character rest with
        | nil => simp_all [pieces]
        | cons piece more => simp_all [pieces, List.intercalate]
      · cases found : pieces mark rest with
        | nil => simp_all [pieces, List.intercalate]
        | cons piece more =>
            cases more with
            | nil => simp_all [pieces, List.intercalate]
            | cons next others => simp_all [pieces, List.intercalate]

theorem pieces_ne_nil (mark : Char) (text : List Char) : pieces mark text ≠ [] := by
  cases text with
  | nil => simp [pieces]
  | cons character rest =>
      rw [pieces]
      split
      · simp
      · split <;> simp

theorem pieces_append_cons (mark : Char) (text rest : List Char) :
    pieces mark (text ++ mark :: rest) = pieces mark text ++ pieces mark rest := by
  induction text with
  | nil => simp [pieces]
  | cons character text ih =>
      rw [List.cons_append, pieces, pieces, ih]
      by_cases same : character = mark
      · simp [same]
      · rw [if_neg same, if_neg same]
        obtain ⟨piece, more, isCons⟩ := List.exists_cons_of_ne_nil (pieces_ne_nil mark text)
        rw [isCons]
        rfl

theorem pieces_of_notMem {mark : Char} {text : List Char} (notIn : mark ∉ text) :
    pieces mark text = [text] := by
  induction text with
  | nil => rfl
  | cons character rest ih =>
      obtain ⟨differs, notInRest⟩ := not_or.mp (mt List.mem_cons.mpr notIn)
      rw [pieces, if_neg (Ne.symm differs), ih notInRest]

theorem pieces_path {name : String} (before : String) (noSlash : '/' ∉ name.toList) :
    pieces '/' (before ++ "/" ++ name).toList = pieces '/' before.toList ++ [name.toList] := by
  rw [String.toList_append, String.toList_append, List.append_assoc, ← pieces_of_notMem noSlash]
  exact pieces_append_cons '/' before.toList name.toList

/-- A number is written in digits. -/
theorem notMem_toString {mark : Char} (noDigit : mark.isDigit = false) (number : Nat) :
    mark ∉ (toString number).toList := by
  rw [Nat.toString_eq_ofList_toDigits, String.toList_ofList]
  intro occurs
  have isDigit := Nat.isDigit_of_mem_toDigits (by decide) (by decide) occurs
  exact absurd (noDigit.symm.trans isDigit) Bool.false_ne_true

end Text

end Typeloom
