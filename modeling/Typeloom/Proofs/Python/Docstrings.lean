import Mathlib.Data.List.DropRight
import Typeloom.Proofs.Python.Scalars
import Typeloom.Render.Python

/-!
# Docstrings

A description is written between triple quotes, with its backslashes and every three quotes in a
row escaped.  One or two quotes at its end are left as they are, so that they are taken for a part
of the closing quotes: what is read back is the description if and only if the number of quotes at
its end is a multiple of three.
-/

namespace Typeloom

namespace Python

def tripleQuotes : List Char :=
  ['\"', '\"', '\"']

/-- The number of quotes at the end of a text. -/
def quotesBehind (text : List Char) : Nat :=
  (text.rtakeWhile (· = '\"')).length

theorem quotesBehind_append_of_all (front : List Char) {rest : List Char}
    (areQuotes : ∀ character ∈ rest, character = '\"') :
    quotesBehind (front ++ rest) = quotesBehind front + rest.length := by
  have areReversed : ∀ character ∈ rest.reverse, decide (character = '\"') = true :=
    fun character occurs => decide_eq_true (areQuotes character (List.mem_reverse.mp occurs))
  simp only [quotesBehind, List.rtakeWhile, List.reverse_append, List.length_reverse,
    List.takeWhile_append_of_pos areReversed, List.length_append, Nat.add_comm]

theorem quotesBehind_append_of_mem (front : List Char) {rest : List Char} {character : Char}
    (occurs : character ∈ rest) (noQuote : character ≠ '\"') :
    quotesBehind (front ++ rest) = quotesBehind rest := by
  have stops : ¬(rest.reverse.takeWhile (· = '\"')).length = rest.reverse.length := by
    intro whole
    have same := List.takeWhile_eq_self_iff.mp
      ((List.takeWhile_prefix _).eq_of_length whole) character (List.mem_reverse.mpr occurs)
    exact noQuote (of_decide_eq_true same)
  simp only [quotesBehind, List.rtakeWhile, List.reverse_append, List.takeWhile_append,
    if_neg stops]

theorem quotesBehind_cons_of_ne {character : Char} (noQuote : character ≠ '\"')
    (rest : List Char) : quotesBehind (character :: rest) = quotesBehind rest := by
  by_cases areQuotes : ∀ other ∈ rest, other = '\"'
  · have alone : quotesBehind [character] = quotesBehind [] := by
      simp [quotesBehind, List.rtakeWhile, noQuote]
    have whole := quotesBehind_append_of_all [character] areQuotes
    rw [alone, ← quotesBehind_append_of_all [] areQuotes] at whole
    exact whole
  · push Not at areQuotes
    obtain ⟨other, occurs, differs⟩ := areQuotes
    exact quotesBehind_append_of_mem [character] occurs differs

theorem quotesBehind_tripleQuotes_append (rest : List Char) :
    quotesBehind (tripleQuotes ++ rest) % 3 = quotesBehind rest % 3 := by
  by_cases areQuotes : ∀ other ∈ rest, other = '\"'
  · have three : quotesBehind tripleQuotes = 3 := by decide
    have none : quotesBehind [] = 0 := by decide
    have alone := quotesBehind_append_of_all [] areQuotes
    rw [quotesBehind_append_of_all tripleQuotes areQuotes, three]
    rw [List.nil_append, none] at alone
    omega
  · push Not at areQuotes
    obtain ⟨other, occurs, differs⟩ := areQuotes
    rw [quotesBehind_append_of_mem tripleQuotes occurs differs]

/-! ## Scanning -/

/-- Whether a text up to triple quotes is read from what is written, and what stands behind the
quotes. -/
def Scans (written read remainder : List Char) : Prop :=
  ∃ count, textBody? tripleQuotes written = some (codes read, count) ∧
    written.drop count = remainder

variable {written read remainder text : List Char}

theorem scans_tripleQuotes (remainder : List Char) :
    Scans (tripleQuotes ++ remainder) [] remainder := by
  refine ⟨3, ?_, rfl⟩
  have closes : tripleQuotes.isPrefixOf (tripleQuotes ++ remainder) = true :=
    List.isPrefixOf_iff_prefix.mpr (List.prefix_append _ _)
  rw [tripleQuotes, List.cons_append, textBody?]
  exact if_pos closes

theorem Scans.character {character : Char} (scans : Scans written read remainder)
    (opens : tripleQuotes.isPrefixOf (character :: written) = false)
    (noEscape : character ≠ '\\') : Scans (character :: written) (character :: read) remainder := by
  obtain ⟨count, isBody, dropped⟩ := scans
  refine ⟨1 + count, ?_, ?_⟩
  · rw [textBody?_character opens noEscape (fun _ => by decide), isBody]
    rfl
  · rwa [Nat.add_comm, List.drop_succ_cons]

theorem Scans.escaped {character : Char} (scans : Scans written read remainder)
    (isMark : character = '\\' ∨ character = '\"') :
    Scans ('\\' :: character :: written) (character :: read) remainder := by
  have isEscape : escape? (character :: written) = some ([character.toNat], 1) := by
    rcases isMark with rfl | rfl <;> rfl
  obtain ⟨count, isBody, dropped⟩ := scans
  refine ⟨2 + count, ?_, ?_⟩
  · rw [textBody?_escape rfl isEscape, List.drop_succ_cons, List.drop_zero, isBody]
    rfl
  · rwa [Nat.add_comm, List.drop_succ_cons, List.drop_succ_cons]

theorem escapeDescription_cons {character : Char}
    (noTriple : ∀ rest, character = '\"' → text = '\"' :: '\"' :: rest → False)
    (noBackslash : character ≠ '\\') :
    escapeDescription (character :: text) = character :: escapeDescription text := by
  rw [escapeDescription]
  · exact noTriple
  · exact noBackslash

theorem exists_escapeDescription_cons {character : Char} (noQuote : character ≠ '\"')
    (text : List Char) :
    ∃ first more, escapeDescription (character :: text) = first :: more ∧ first ≠ '\"' := by
  by_cases isBackslash : character = '\\'
  · subst isBackslash
    exact ⟨'\\', _, by rw [escapeDescription], by decide⟩
  · exact ⟨character, _,
      escapeDescription_cons (fun _ isQuote => absurd isQuote noQuote) isBackslash, noQuote⟩

/-- A quote that no two others follow at once does not close the text. -/
theorem not_isPrefixOf_escapeDescription {character : Char} {rest : List Char}
    (occurs : character ∈ rest.take 2) (noQuote : character ≠ '\"') (behind : List Char) :
    tripleQuotes.isPrefixOf ('\"' :: (escapeDescription rest ++ behind)) = false := by
  match rest with
  | [] => cases occurs
  | first :: rest =>
      by_cases isQuote : first = '\"'
      · subst isQuote
        match rest with
        | [] => exact absurd (List.mem_singleton.mp occurs) noQuote
        | second :: rest =>
            have differs : second ≠ '\"' := by
              rintro rfl
              simp [noQuote] at occurs
            obtain ⟨begin, more, isCons, opens⟩ := exists_escapeDescription_cons differs rest
            rw [escapeDescription_cons (fun rest _ same => differs (List.cons.inj same).1)
              (by decide), isCons]
            simp [tripleQuotes, List.isPrefixOf, Ne.symm opens]
      · obtain ⟨begin, more, isCons, opens⟩ := exists_escapeDescription_cons isQuote rest
        simp [isCons, tripleQuotes, List.isPrefixOf, Ne.symm opens]

theorem exists_scans_escapeDescription (text : List Char) :
    ∃ front, text = front ++ List.replicate (quotesBehind text % 3) '\"' ∧
      Scans (escapeDescription text ++ tripleQuotes) front
        (List.replicate (quotesBehind text % 3) '\"') := by
  induction text using escapeDescription.induct with
  | case1 => exact ⟨[], rfl, scans_tripleQuotes []⟩
  | case2 rest ih =>
      obtain ⟨front, isFront, scans⟩ := ih
      have sameRest : quotesBehind ('\"' :: '\"' :: '\"' :: rest) % 3 = quotesBehind rest % 3 :=
        quotesBehind_tripleQuotes_append rest
      rw [sameRest, escapeDescription]
      refine ⟨tripleQuotes ++ front, congrArg (tripleQuotes ++ ·) isFront, ?_⟩
      have isMark : '\"' = '\\' ∨ '\"' = '\"' := Or.inr rfl
      exact ((scans.escaped isMark).escaped isMark).escaped isMark
  | case3 rest ih =>
      obtain ⟨front, isFront, scans⟩ := ih
      rw [quotesBehind_cons_of_ne (by decide), escapeDescription]
      exact ⟨'\\' :: front, congrArg ('\\' :: ·) isFront, scans.escaped (Or.inl rfl)⟩
  | case4 character rest noTriple noBackslash ih =>
      obtain ⟨front, isFront, scans⟩ := ih
      rw [escapeDescription_cons noTriple noBackslash]
      by_cases isQuote : character = '\"'
      · subst isQuote
        by_cases closes : ∀ other ∈ rest.take 2, other = '\"'
        · match rest with
          | [] => exact ⟨[], rfl, scans_tripleQuotes ['\"']⟩
          | [other] =>
              obtain rfl := closes other List.mem_cons_self
              exact ⟨[], rfl, scans_tripleQuotes ['\"', '\"']⟩
          | first :: second :: rest =>
              obtain rfl := closes first (by simp)
              obtain rfl := closes second (by simp)
              exact absurd rfl (noTriple rest rfl)
        · push Not at closes
          obtain ⟨other, occurs, differs⟩ := closes
          have sameRest : quotesBehind ('\"' :: rest) = quotesBehind rest :=
            quotesBehind_append_of_mem ['\"'] (List.mem_of_mem_take occurs) differs
          rw [sameRest]
          exact ⟨'\"' :: front, congrArg ('\"' :: ·) isFront,
            scans.character (not_isPrefixOf_escapeDescription occurs differs _) (by decide)⟩
      · rw [quotesBehind_cons_of_ne isQuote]
        have opens : tripleQuotes.isPrefixOf
            (character :: (escapeDescription rest ++ tripleQuotes)) = false := by
          simp [tripleQuotes, List.isPrefixOf, Ne.symm isQuote]
        exact ⟨character :: front, congrArg (character :: ·) isFront,
          scans.character opens noBackslash⟩

/-! ## Docstrings -/

/-- The expression of a docstring. -/
def tripleQuoted (text : String) : String :=
  "\"\"\"" ++ text ++ "\"\"\""

theorem tokens?_tripleQuotes (scans : Scans written read remainder) :
    tokens? (tripleQuotes ++ written) = (tokens? remainder).map (.text (codes read) :: ·) := by
  obtain ⟨count, isBody, rfl⟩ := scans
  have isToken : tokenAt? '\"' ('\"' :: '\"' :: written) =
      (textBody? tripleQuotes written).map fun body => (.text body.1, 2 + body.2) := rfl
  have noGap : ¬isGap '\"' = true := by decide
  rw [tripleQuotes, List.cons_append, List.cons_append, List.cons_append, List.nil_append,
    tokens?, if_neg noGap, isToken, isBody]
  simp only [Option.map_some]
  rw [Nat.add_comm, List.drop_succ_cons, List.drop_succ_cons]

theorem tokens?_quote : tokens? ['\"'] = none := by
  have unterminated : tokenAt? '\"' [] = (textBody? ['\"'] []).map fun body =>
      (.text body.1, body.2) := rfl
  have noGap : ¬isGap '\"' = true := by decide
  rw [tokens?, if_neg noGap, unterminated, textBody?]
  rfl

theorem tokens?_twoQuotes : tokens? ['\"', '\"'] = some [.text []] := by
  have empty : tokenAt? '\"' ['\"'] = (textBody? ['\"'] ['\"']).map fun body =>
      (.text body.1, body.2) := rfl
  refine tokens?_single rfl ?_
  rw [empty, textBody?]
  rfl

theorem mem_escapeDescription {character : Char} (occurs : character ∈ escapeDescription text) :
    character ∈ text ∨ character = '\\' ∨ character = '\"' := by
  induction text using escapeDescription.induct with
  | case1 => cases occurs
  | case2 rest ih =>
      rw [escapeDescription] at occurs
      rcases List.mem_append.mp occurs with escaped | later
      · have marks : ['\\', '\"', '\\', '\"', '\\', '\"'] ⊆ ['\\', '\"'] := by decide
        exact Or.inr (by simpa using marks escaped)
      · exact (ih later).imp_left fun inRest => by simp [inRest]
  | case3 rest ih =>
      rw [escapeDescription, List.mem_cons, List.mem_cons] at occurs
      rcases occurs with isMark | isMark | later
      · exact Or.inr (Or.inl isMark)
      · exact Or.inr (Or.inl isMark)
      · exact (ih later).imp_left (List.mem_cons_of_mem _)
  | case4 first rest noTriple noBackslash ih =>
      rw [escapeDescription_cons noTriple noBackslash] at occurs
      rcases List.mem_cons.mp occurs with rfl | later
      · exact Or.inl List.mem_cons_self
      · exact (ih later).imp_left (List.mem_cons_of_mem _)

theorem notMem_tripleQuoted {character : Char} (notIn : character ∉ text)
    (noBackslash : character ≠ '\\') (noQuote : character ≠ '\"') :
    character ∉ tripleQuotes ++ (escapeDescription text ++ tripleQuotes) := by
  have noneOf : character ∉ tripleQuotes := by
    simp [tripleQuotes, noQuote]
  rw [List.mem_append, List.mem_append]
  rintro (isQuote | escaped | isQuote)
  · exact noneOf isQuote
  · rcases mem_escapeDescription escaped with occurs | isMark | isMark
    · exact notIn occurs
    · exact noBackslash isMark
    · exact noQuote isMark
  · exact noneOf isQuote

/-- A docstring is read back if and only if the quotes at its end come in threes. -/
theorem evaluate_tripleQuoted_iff (noNull : Char.ofNat 0 ∉ text) (noReturn : '\r' ∉ text) :
    evaluate (tripleQuoted (String.ofList (escapeDescription text))) = some (.str (codes text)) ↔
      3 ∣ quotesBehind text := by
  have source : (tripleQuoted (String.ofList (escapeDescription text))).toList =
      tripleQuotes ++ (escapeDescription text ++ tripleQuotes) := by
    simp [tripleQuoted, tripleQuotes]
  obtain ⟨front, isFront, scans⟩ := exists_scans_escapeDescription text
  rw [evaluate_of_notMem, source, tokens?_tripleQuotes scans]
  · have threeCases : quotesBehind text % 3 = 0 ∨ quotesBehind text % 3 = 1 ∨
        quotesBehind text % 3 = 2 := by omega
    rcases threeCases with isZero | isOne | isTwo
    · rw [isZero, List.replicate_zero, List.append_nil] at isFront
      rw [isZero, List.replicate_zero, ← isFront, tokens?]
      exact iff_of_true rfl (Nat.dvd_of_mod_eq_zero isZero)
    · rw [isOne, List.replicate_one, tokens?_quote]
      exact iff_of_false (by simp) (by omega)
    · have twoQuotes : List.replicate 2 '\"' = ['\"', '\"'] := rfl
      rw [isTwo, twoQuotes] at isFront
      rw [isTwo, twoQuotes, tokens?_twoQuotes]
      refine iff_of_false (fun same => ?_) (by omega)
      have shorter : codes front ++ [] = codes text := by
        injection same with same
        injection same
      have lengths := congrArg List.length (shorter.trans (congrArg codes isFront))
      simp [codes] at lengths
  · rw [source]
    exact notMem_tripleQuoted noNull (by decide) (by decide)
  · rw [source]
    exact notMem_tripleQuoted noReturn (by decide) (by decide)

theorem quotesBehind_eq_zero (noQuote : text.getLast? ≠ some '\"') : quotesBehind text = 0 := by
  rw [quotesBehind, List.rtakeWhile, List.length_reverse]
  rw [← List.head?_reverse] at noQuote
  cases reversed : text.reverse with
  | nil => rfl
  | cons last front =>
      have differs : last ≠ '\"' := by simpa [reversed] using noQuote
      simp [differs]

/-! ## Templates -/

/-- Whether a text has a line with a docstring, indented by one step. -/
def HasDocstring (docstring text : String) : Prop :=
  ∃ before behind, text = before ++ "\n    " ++ tripleQuoted docstring ++ "\n" ++ behind

theorem HasDocstring.append {docstring text : String} (has : HasDocstring docstring text)
    (more : String) : HasDocstring docstring (text ++ more) := by
  obtain ⟨before, behind, rfl⟩ := has
  exact ⟨before, behind ++ more, String.append_assoc ..⟩

theorem hasDocstring_line (before head docstring behind : String) :
    HasDocstring docstring
      (before ++ line head ++ (line ("    \"\"\"" ++ docstring ++ "\"\"\"") ++ behind)) := by
  refine ⟨before ++ head, behind, ?_⟩
  simp only [line, tripleQuoted, ← String.toList_inj, String.toList_append, List.append_assoc]
  rfl

section Templates

variable {description : Json} {docstring : String}
    (described : descriptionText description = .ok (some docstring))
include described

theorem exists_hasDocstring_classModule {module : ClassModule}
    (isDescription : module.description = description) :
    ∃ text, module.text = .ok text ∧ HasDocstring docstring text := by
  rw [ClassModule.text, ClassModule.textWith, isDescription, described]
  exact ⟨_, rfl, (hasDocstring_line _ _ docstring _).append _⟩

theorem exists_hasDocstring_renderEnum {entry : TypeOutline} {definition : EnumDefinition}
    (isDescription : definition.description = description) :
    ∃ text, renderEnum entry definition = .ok text ∧ HasDocstring docstring text := by
  rw [renderEnum, isDescription, described]
  exact ⟨_, rfl, ((hasDocstring_line _ _ docstring _).append _).append _⟩

end Templates

theorem descriptionText_text {description : String}
    (notBlank : Unicode.trim description.toList ≠ []) :
    descriptionText (.text description) =
      .ok (some (String.ofList (escapeDescription (Unicode.trim description.toList)))) := by
  have notEmpty : description.isEmpty = false := by
    refine Bool.eq_false_iff.mpr fun isEmpty => notBlank ?_
    rw [String.isEmpty_iff.mp isEmpty]
    rfl
  have isTruthy : (Json.text description).isTruthy = true := by
    rw [Json.isTruthy, notEmpty]
    rfl
  have textNotEmpty : ¬(Unicode.trim description.toList).isEmpty = true := by
    rwa [List.isEmpty_iff]
  rw [descriptionText, if_pos isTruthy]
  exact congrArg Except.ok (if_neg textNotEmpty)

end Python

end Typeloom
