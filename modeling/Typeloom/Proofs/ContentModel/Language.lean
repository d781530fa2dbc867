import Mathlib.Computability.Language
import Typeloom.ContentModel.Expression
import Typeloom.ContentModel.Graph

/-!
# The language of a content model

An expression denotes the sequences of elements that it admits, with products, unions and
repetitions of languages.  The same sequences are described element by element: the first one can
come first, each one can follow the one in front of it, and the last one can come last.  If no
element occurs twice in the expression, both descriptions agree.
-/

namespace Typeloom

namespace Expression

open scoped Computability

/-- The sequences of elements that an expression admits. -/
def language : Expression → Language Element
  | element item => {[item]}
  | epsilon => 1
  | sequence left right => left.language * right.language
  | choice left right => left.language + right.language
  | oneOrMore child => child.language * child.language∗

/-- The sequences that may stand behind an element: each item can follow the one in front of it,
and the last one can come last. -/
def Continues (expression : Expression) : Element → List Element → Prop
  | item, [] => item ∈ expression.last
  | item, next :: word => next ∈ expression.follow item ∧ expression.Continues next word

/-- The sequences that are read element by element. -/
def Accepts (expression : Expression) : List Element → Prop
  | [] => expression.nullable = true
  | item :: word => item ∈ expression.first ∧ expression.Continues item word

/-! ## First, last and following elements are elements -/

theorem mem_elements_of_mem_first {expression : Expression} {item : Element}
    (occurs : item ∈ expression.first) : item ∈ expression.elements := by
  induction expression with
  | element only => simpa [first, elements] using occurs
  | epsilon => simp [first] at occurs
  | sequence left right leftIH rightIH =>
      simp only [elements, List.mem_append]
      cases skips : left.nullable with
      | false => exact Or.inl (leftIH (by simpa [first, skips] using occurs))
      | true =>
          have either : item ∈ left.first ∨ item ∈ right.first := by
            simpa [first, skips] using occurs
          exact either.imp leftIH rightIH
  | choice left right leftIH rightIH =>
      simp only [first, elements, mem_merge, List.mem_append] at occurs ⊢
      exact occurs.imp leftIH rightIH
  | oneOrMore child childIH => exact childIH occurs

theorem mem_elements_of_mem_last {expression : Expression} {item : Element}
    (occurs : item ∈ expression.last) : item ∈ expression.elements := by
  induction expression with
  | element only => simpa [last, elements] using occurs
  | epsilon => simp [last] at occurs
  | sequence left right leftIH rightIH =>
      simp only [elements, List.mem_append]
      cases skips : right.nullable with
      | false => exact Or.inr (rightIH (by simpa [last, skips] using occurs))
      | true =>
          have either : item ∈ right.last ∨ item ∈ left.last := by
            simpa [last, skips] using occurs
          exact either.symm.imp leftIH rightIH
  | choice left right leftIH rightIH =>
      simp only [last, elements, mem_merge, List.mem_append] at occurs ⊢
      exact occurs.imp leftIH rightIH
  | oneOrMore child childIH => exact childIH occurs

theorem mem_follow_sequence {left right : Expression} {item next : Element} :
    next ∈ (sequence left right).follow item ↔
      next ∈ left.follow item ∨ next ∈ right.follow item ∨
        item ∈ left.last ∧ next ∈ right.first := by
  by_cases ends : item ∈ left.last <;> simp [follow, ends, or_assoc]

theorem mem_follow_choice {left right : Expression} {item next : Element} :
    next ∈ (choice left right).follow item ↔
      next ∈ left.follow item ∨ next ∈ right.follow item := by
  simp [follow]

theorem mem_follow_oneOrMore {child : Expression} {item next : Element} :
    next ∈ (oneOrMore child).follow item ↔
      next ∈ child.follow item ∨ item ∈ child.last ∧ next ∈ child.first := by
  by_cases ends : item ∈ child.last <;> simp [follow, ends]

/-- Both ends of a step are elements. -/
theorem mem_elements_of_mem_follow {expression : Expression} {item next : Element}
    (follows : next ∈ expression.follow item) :
    item ∈ expression.elements ∧ next ∈ expression.elements := by
  induction expression with
  | element only => simp [follow] at follows
  | epsilon => simp [follow] at follows
  | sequence left right leftIH rightIH =>
      simp only [elements, List.mem_append]
      rcases mem_follow_sequence.mp follows with inLeft | inRight | ⟨ends, begins⟩
      · exact ⟨Or.inl (leftIH inLeft).1, Or.inl (leftIH inLeft).2⟩
      · exact ⟨Or.inr (rightIH inRight).1, Or.inr (rightIH inRight).2⟩
      · exact ⟨Or.inl (mem_elements_of_mem_last ends),
          Or.inr (mem_elements_of_mem_first begins)⟩
  | choice left right leftIH rightIH =>
      simp only [elements, List.mem_append]
      rcases mem_follow_choice.mp follows with inLeft | inRight
      · exact ⟨Or.inl (leftIH inLeft).1, Or.inl (leftIH inLeft).2⟩
      · exact ⟨Or.inr (rightIH inRight).1, Or.inr (rightIH inRight).2⟩
  | oneOrMore child childIH =>
      rcases mem_follow_oneOrMore.mp follows with inChild | ⟨ends, begins⟩
      · exact childIH inChild
      · exact ⟨mem_elements_of_mem_last ends, mem_elements_of_mem_first begins⟩

/-! ## Rounds of a repetition -/

theorem cons_mem_kstar {α : Type} {rounds : Language α} {item : α} {word : List α} :
    item :: word ∈ rounds∗ ↔
      ∃ before after, item :: before ∈ rounds ∧ after ∈ rounds∗ ∧ before ++ after = word := by
  constructor
  · rw [Language.mem_kstar_iff_exists_nonempty]
    rintro ⟨pieces, joined, members⟩
    cases pieces with
    | nil => simp at joined
    | cons piece pieces =>
        obtain ⟨member, nonempty⟩ := members piece (by simp)
        cases piece with
        | nil => exact absurd rfl nonempty
        | cons head before =>
            simp only [List.flatten_cons, List.cons_append, List.cons.injEq] at joined
            obtain ⟨rfl, rfl⟩ := joined
            refine ⟨before, pieces.flatten, member, ?_, rfl⟩
            exact Language.join_mem_kstar fun other occurs => (members other (by simp [occurs])).1
  · rintro ⟨before, after, member, rounds, rfl⟩
    obtain ⟨pieces, rfl, members⟩ := Language.mem_kstar.mp rounds
    refine Language.mem_kstar.mpr ⟨(item :: before) :: pieces, by simp, ?_⟩
    intro piece occurs
    rcases List.mem_cons.mp occurs with rfl | later
    · exact member
    · exact members piece later

theorem cons_mem_mul {α : Type} {first second : Language α} {item : α} {word : List α} :
    item :: word ∈ first * second ↔
      (∃ before after, item :: before ∈ first ∧ after ∈ second ∧ before ++ after = word) ∨
        [] ∈ first ∧ item :: word ∈ second := by
  rw [Language.mem_mul]
  constructor
  · rintro ⟨before, inFirst, after, inSecond, split⟩
    cases before with
    | nil => exact Or.inr ⟨inFirst, split ▸ inSecond⟩
    | cons head before =>
        obtain ⟨rfl, rfl⟩ := List.cons.inj split
        exact Or.inl ⟨before, after, inFirst, inSecond, rfl⟩
  · rintro (⟨before, after, inFirst, inSecond, rfl⟩ | ⟨inFirst, inSecond⟩)
    · exact ⟨item :: before, inFirst, after, inSecond, rfl⟩
    · exact ⟨[], inFirst, item :: word, inSecond, rfl⟩

/-! ## What may stand behind an element of a composed expression -/

section Composed

variable {left right : Expression}

/-- Behind an element of the second part of a sequence nothing of the first part comes back. -/
theorem continues_sequence_right (apart : left.elements.Disjoint right.elements)
    {item : Element} (inRight : item ∈ right.elements) (word : List Element) :
    (sequence left right).Continues item word ↔ right.Continues item word := by
  induction word generalizing item with
  | nil =>
      have notLeft : item ∉ left.last := fun ends =>
        apart (mem_elements_of_mem_last ends) inRight
      cases skips : right.nullable <;> simp [Continues, last, skips, notLeft]
  | cons next word ih =>
      have notLeft : item ∉ left.elements := fun inLeft => apart inLeft inRight
      have step : next ∈ (sequence left right).follow item ↔ next ∈ right.follow item := by
        rw [mem_follow_sequence]
        constructor
        · rintro (inLeft | follows | ⟨ends, _⟩)
          · exact absurd (mem_elements_of_mem_follow inLeft).1 notLeft
          · exact follows
          · exact absurd (mem_elements_of_mem_last ends) notLeft
        · exact fun follows => Or.inr (Or.inl follows)
      simp only [Continues, step]
      refine and_congr_right fun follows => ?_
      exact ih (mem_elements_of_mem_follow follows).2

/-- Behind an element of the first part of a sequence comes the rest of the first part and then
the second part. -/
theorem continues_sequence_left (apart : left.elements.Disjoint right.elements)
    {item : Element} (inLeft : item ∈ left.elements) (word : List Element) :
    (sequence left right).Continues item word ↔
      ∃ before after, left.Continues item before ∧ right.Accepts after ∧
        before ++ after = word := by
  induction word generalizing item with
  | nil =>
      have notRight : item ∉ right.last := fun ends =>
        apart inLeft (mem_elements_of_mem_last ends)
      cases skips : right.nullable <;>
        simp [Continues, Accepts, last, skips, notRight]
  | cons next word ih =>
      have notRight : item ∉ right.elements := fun inRight => apart inLeft inRight
      simp only [Continues, mem_follow_sequence]
      constructor
      · rintro ⟨follows | follows | ⟨ends, begins⟩, continues⟩
        · obtain ⟨before, after, reads, accepts, rfl⟩ :=
            (ih (mem_elements_of_mem_follow follows).2).mp continues
          exact ⟨next :: before, after, ⟨follows, reads⟩, accepts, rfl⟩
        · exact absurd (mem_elements_of_mem_follow follows).1 notRight
        · have reads := (continues_sequence_right apart
            (mem_elements_of_mem_first begins) word).mp continues
          exact ⟨[], next :: word, ends, ⟨begins, reads⟩, rfl⟩
      · rintro ⟨before, after, reads, accepts, split⟩
        cases before with
        | nil =>
            obtain rfl : after = next :: word := split
            obtain ⟨begins, continues⟩ := accepts
            exact ⟨Or.inr (Or.inr ⟨reads, begins⟩),
              (continues_sequence_right apart (mem_elements_of_mem_first begins) word).mpr
                continues⟩
        | cons head before =>
            obtain ⟨rfl, rfl⟩ := List.cons.inj split
            obtain ⟨follows, continues⟩ := reads
            exact ⟨Or.inl follows,
              (ih (mem_elements_of_mem_follow follows).2).mpr
                ⟨before, after, continues, accepts, rfl⟩⟩

/-- A choice goes on as the alternative that its element belongs to. -/
theorem continues_choice_left (apart : left.elements.Disjoint right.elements)
    {item : Element} (inLeft : item ∈ left.elements) (word : List Element) :
    (choice left right).Continues item word ↔ left.Continues item word := by
  induction word generalizing item with
  | nil =>
      have notRight : item ∉ right.last := fun ends =>
        apart inLeft (mem_elements_of_mem_last ends)
      simp [Continues, last, notRight]
  | cons next word ih =>
      have notRight : next ∉ right.follow item := fun follows =>
        apart inLeft (mem_elements_of_mem_follow follows).1
      simp only [Continues, mem_follow_choice, notRight, or_false]
      refine and_congr_right fun follows => ?_
      exact ih (mem_elements_of_mem_follow follows).2

theorem continues_choice_right (apart : left.elements.Disjoint right.elements)
    {item : Element} (inRight : item ∈ right.elements) (word : List Element) :
    (choice left right).Continues item word ↔ right.Continues item word := by
  induction word generalizing item with
  | nil =>
      have notLeft : item ∉ left.last := fun ends =>
        apart (mem_elements_of_mem_last ends) inRight
      simp [Continues, last, notLeft]
  | cons next word ih =>
      have notLeft : next ∉ left.follow item := fun follows =>
        apart (mem_elements_of_mem_follow follows).1 inRight
      simp only [Continues, mem_follow_choice, notLeft, false_or]
      refine and_congr_right fun follows => ?_
      exact ih (mem_elements_of_mem_follow follows).2

end Composed

/-- Behind an element of a repetition comes the rest of its round and then any further rounds. -/
theorem continues_oneOrMore {child : Expression}
    (agrees : ∀ word, word ∈ child.language ↔ child.Accepts word)
    (item : Element) (word : List Element) :
    (oneOrMore child).Continues item word ↔
      ∃ before after, child.Continues item before ∧ after ∈ child.language∗ ∧
        before ++ after = word := by
  induction word generalizing item with
  | nil => simp [Continues, last, Language.nil_mem_kstar]
  | cons next word ih =>
      simp only [Continues, mem_follow_oneOrMore, ih]
      constructor
      · rintro ⟨follows | ⟨ends, begins⟩, before, after, reads, rounds, rfl⟩
        · exact ⟨next :: before, after, ⟨follows, reads⟩, rounds, rfl⟩
        · have round : next :: before ∈ child.language := (agrees _).mpr ⟨begins, reads⟩
          exact ⟨[], next :: before ++ after, ends,
            cons_mem_kstar.mpr ⟨before, after, round, rounds, rfl⟩, rfl⟩
      · rintro ⟨before, after, reads, rounds, split⟩
        cases before with
        | nil =>
            obtain rfl : after = next :: word := split
            obtain ⟨round, rest, member, further, rfl⟩ := cons_mem_kstar.mp rounds
            obtain ⟨begins, continues⟩ := (agrees _).mp member
            exact ⟨Or.inr ⟨reads, begins⟩, round, rest, continues, further, rfl⟩
        | cons head before =>
            obtain ⟨rfl, rfl⟩ := List.cons.inj split
            obtain ⟨follows, continues⟩ := reads
            exact ⟨Or.inl follows, before, after, continues, rounds, rfl⟩

/-! ## Both descriptions agree -/

theorem nil_mem_language_iff {expression : Expression} :
    [] ∈ expression.language ↔ expression.nullable = true := by
  induction expression with
  | element only =>
      have single : [] ∈ (element only).language ↔ [] = [only] := Iff.rfl
      simp [single, nullable]
  | epsilon => simp [language, nullable]
  | sequence left right leftIH rightIH =>
      simp [language, nullable, Language.mem_mul, ← leftIH, ← rightIH]
  | choice left right leftIH rightIH =>
      rw [language, Language.mem_add, leftIH, rightIH]
      simp [nullable]
  | oneOrMore child childIH =>
      simp [language, nullable, Language.mem_mul, ← childIH, Language.nil_mem_kstar]

theorem cons_mem_language_sequence {left right : Expression}
    (apart : left.elements.Disjoint right.elements)
    (leftAgrees : ∀ word, word ∈ left.language ↔ left.Accepts word)
    (rightAgrees : ∀ word, word ∈ right.language ↔ right.Accepts word)
    (item : Element) (word : List Element) :
    item :: word ∈ (sequence left right).language ↔
      (sequence left right).Accepts (item :: word) := by
  simp only [language, cons_mem_mul, leftAgrees, rightAgrees, Accepts]
  constructor
  · rintro (⟨before, after, ⟨begins, reads⟩, accepts, rfl⟩ | ⟨skips, begins, reads⟩)
    · have continues := (continues_sequence_left apart (mem_elements_of_mem_first begins)
        (before ++ after)).mpr ⟨before, after, reads, accepts, rfl⟩
      refine ⟨?_, continues⟩
      cases skips : left.nullable <;> simp [first, skips, begins]
    · have continues := (continues_sequence_right apart (mem_elements_of_mem_first begins)
        word).mpr reads
      exact ⟨by simp [first, skips, begins], continues⟩
  · rintro ⟨begins, continues⟩
    have cases : item ∈ left.first ∨ left.nullable = true ∧ item ∈ right.first := by
      cases skips : left.nullable with
      | false => exact Or.inl (by simpa [first, skips] using begins)
      | true => simpa [first, skips] using begins
    rcases cases with inLeft | ⟨skips, inRight⟩
    · obtain ⟨before, after, reads, accepts, split⟩ :=
        (continues_sequence_left apart (mem_elements_of_mem_first inLeft) word).mp continues
      exact Or.inl ⟨before, after, ⟨inLeft, reads⟩, accepts, split⟩
    · have reads :=
        (continues_sequence_right apart (mem_elements_of_mem_first inRight) word).mp continues
      exact Or.inr ⟨skips, inRight, reads⟩

theorem cons_mem_language_choice {left right : Expression}
    (apart : left.elements.Disjoint right.elements)
    (leftAgrees : ∀ word, word ∈ left.language ↔ left.Accepts word)
    (rightAgrees : ∀ word, word ∈ right.language ↔ right.Accepts word)
    (item : Element) (word : List Element) :
    item :: word ∈ (choice left right).language ↔
      (choice left right).Accepts (item :: word) := by
  simp only [language, Language.mem_add, leftAgrees, rightAgrees, Accepts, first, mem_merge]
  have onLeft (begins : item ∈ left.first) :=
    continues_choice_left apart (mem_elements_of_mem_first begins) word
  have onRight (begins : item ∈ right.first) :=
    continues_choice_right apart (mem_elements_of_mem_first begins) word
  constructor
  · rintro (⟨begins, reads⟩ | ⟨begins, reads⟩)
    · exact ⟨Or.inl begins, (onLeft begins).mpr reads⟩
    · exact ⟨Or.inr begins, (onRight begins).mpr reads⟩
  · rintro ⟨begins | begins, continues⟩
    · exact Or.inl ⟨begins, (onLeft begins).mp continues⟩
    · exact Or.inr ⟨begins, (onRight begins).mp continues⟩

theorem cons_mem_language_oneOrMore {child : Expression}
    (agrees : ∀ word, word ∈ child.language ↔ child.Accepts word)
    (item : Element) (word : List Element) :
    item :: word ∈ (oneOrMore child).language ↔
      (oneOrMore child).Accepts (item :: word) := by
  have ofRound : item :: word ∈ child.language∗ ↔ (oneOrMore child).Accepts (item :: word) := by
    simp only [cons_mem_kstar, agrees, Accepts, first, continues_oneOrMore agrees]
    constructor
    · rintro ⟨before, after, ⟨begins, reads⟩, rounds, split⟩
      exact ⟨begins, before, after, reads, rounds, split⟩
    · rintro ⟨begins, before, after, reads, rounds, split⟩
      exact ⟨before, after, ⟨begins, reads⟩, rounds, split⟩
  have later : item :: word ∈ child.language * child.language∗ ↔
      item :: word ∈ child.language∗ := by
    rw [cons_mem_mul, cons_mem_kstar]
    exact ⟨fun either => either.elim id And.right, Or.inl⟩
  exact later.trans ofRound

/-- An expression in which no element occurs twice admits exactly the sequences that can be read
element by element. -/
theorem mem_language_iff_accepts {expression : Expression}
    (distinct : expression.elements.Nodup) (word : List Element) :
    word ∈ expression.language ↔ expression.Accepts word := by
  induction expression generalizing word with
  | element only =>
      have single : word ∈ (element only).language ↔ word = [only] := Iff.rfl
      rw [single]
      match word with
      | [] => simp [Accepts, nullable]
      | [item] => simp [Accepts, Continues, first, last]
      | item :: next :: word => simp [Accepts, Continues, follow]
  | epsilon =>
      cases word with
      | nil => simp [language, Accepts, nullable]
      | cons item word => simp [language, Accepts, first]
  | sequence left right leftIH rightIH =>
      obtain ⟨leftDistinct, rightDistinct, apart⟩ := List.nodup_append'.mp distinct
      cases word with
      | nil => exact nil_mem_language_iff
      | cons item word =>
          exact cons_mem_language_sequence apart (leftIH leftDistinct)
            (rightIH rightDistinct) item word
  | choice left right leftIH rightIH =>
      obtain ⟨leftDistinct, rightDistinct, apart⟩ := List.nodup_append'.mp distinct
      cases word with
      | nil => exact nil_mem_language_iff
      | cons item word =>
          exact cons_mem_language_choice apart (leftIH leftDistinct)
            (rightIH rightDistinct) item word
  | oneOrMore child childIH =>
      cases word with
      | nil => exact nil_mem_language_iff
      | cons item word => exact cons_mem_language_oneOrMore (childIH distinct) item word

/-! ## Every element is needed -/

theorem language_nonempty (expression : Expression) : ∃ word, word ∈ expression.language := by
  induction expression with
  | element only => exact ⟨[only], rfl⟩
  | epsilon => exact ⟨[], rfl⟩
  | sequence left right leftIH rightIH =>
      obtain ⟨before, inLeft⟩ := leftIH
      obtain ⟨after, inRight⟩ := rightIH
      exact ⟨before ++ after, Language.append_mem_mul inLeft inRight⟩
  | choice left right leftIH rightIH => exact leftIH.imp fun word inLeft => Or.inl inLeft
  | oneOrMore child childIH =>
      obtain ⟨word, inChild⟩ := childIH
      exact ⟨word ++ [], Language.append_mem_mul inChild (Language.nil_mem_kstar _)⟩

/-- Every element occurs in a sequence that the expression admits. -/
theorem exists_mem_language_of_mem_elements {expression : Expression} {item : Element}
    (occurs : item ∈ expression.elements) : ∃ word ∈ expression.language, item ∈ word := by
  induction expression with
  | element only => exact ⟨[only], rfl, occurs⟩
  | epsilon => simp [elements] at occurs
  | sequence left right leftIH rightIH =>
      rcases List.mem_append.mp occurs with inLeft | inRight
      · obtain ⟨before, member, within⟩ := leftIH inLeft
        obtain ⟨after, rest⟩ := right.language_nonempty
        exact ⟨before ++ after, Language.append_mem_mul member rest,
          List.mem_append_left after within⟩
      · obtain ⟨before, rest⟩ := left.language_nonempty
        obtain ⟨after, member, within⟩ := rightIH inRight
        exact ⟨before ++ after, Language.append_mem_mul rest member,
          List.mem_append_right before within⟩
  | choice left right leftIH rightIH =>
      rcases List.mem_append.mp occurs with inLeft | inRight
      · exact (leftIH inLeft).imp fun word ⟨member, within⟩ => ⟨Or.inl member, within⟩
      · exact (rightIH inRight).imp fun word ⟨member, within⟩ => ⟨Or.inr member, within⟩
  | oneOrMore child childIH =>
      obtain ⟨word, member, within⟩ := childIH occurs
      exact ⟨word ++ [], Language.append_mem_mul member (Language.nil_mem_kstar _),
        List.mem_append_left [] within⟩

end Expression

/-!
## The paths of a transition graph

A path from the source to the sink reads the elements on its way.  In the graph of an expression
whose elements are all different, the sequences read in this way are exactly those that the
expression admits, and every element is on such a path.
-/

namespace Graph

open Expression

/-- Whether a sequence of elements is read on a path from the source to the sink. -/
def Reads (graph : Graph) (word : List Element) : Prop :=
  List.IsChain (fun vertex next => next ∈ graph.successors vertex)
    (.source :: word.map Vertex.element ++ [.sink])

/-! ## The edges of the graph of an expression -/

theorem successors_ofExpression {expression : Expression} {vertex : Vertex}
    (known : vertex ∈ verticesOf expression) :
    (ofExpression expression).successors vertex = targetsOf expression.profile vertex := by
  simp [successors, ofExpression, Digraph.get?_tabulate _ known]

theorem element_mem_verticesOf {expression : Expression} {item : Element}
    (occurs : item ∈ expression.elements) : Vertex.element item ∈ verticesOf expression := by
  simp [verticesOf, occurs]

theorem element_mem_successors_source {expression : Expression} {item : Element} :
    .element item ∈ (ofExpression expression).successors .source ↔ item ∈ expression.first := by
  rw [successors_ofExpression (by simp [verticesOf]), profile_eq]
  cases expression.nullable <;> simp [targetsOf]

theorem sink_mem_successors_source {expression : Expression} :
    .sink ∈ (ofExpression expression).successors .source ↔ expression.nullable = true := by
  rw [successors_ofExpression (by simp [verticesOf]), profile_eq]
  cases expression.nullable <;> simp [targetsOf]

theorem element_mem_successors_element {expression : Expression} {item next : Element}
    (occurs : item ∈ expression.elements) :
    .element next ∈ (ofExpression expression).successors (.element item) ↔
      next ∈ expression.follow item := by
  rw [successors_ofExpression (element_mem_verticesOf occurs), profile_eq]
  by_cases ends : item ∈ expression.last <;> simp [targetsOf, ends]

theorem sink_mem_successors_element {expression : Expression} {item : Element}
    (occurs : item ∈ expression.elements) :
    .sink ∈ (ofExpression expression).successors (.element item) ↔
      item ∈ expression.last := by
  rw [successors_ofExpression (element_mem_verticesOf occurs), profile_eq]
  by_cases ends : item ∈ expression.last <;> simp [targetsOf, ends]

/-! ## Paths read what is read element by element -/

theorem isChain_element_iff_continues {expression : Expression} {item : Element}
    (occurs : item ∈ expression.elements) (word : List Element) :
    List.IsChain (fun vertex next => next ∈ (ofExpression expression).successors vertex)
        (.element item :: word.map Vertex.element ++ [.sink]) ↔
      expression.Continues item word := by
  induction word generalizing item with
  | nil => simp [Continues, sink_mem_successors_element occurs]
  | cons next word ih =>
      simp only [List.map_cons, List.cons_append, List.isChain_cons_cons, Continues,
        element_mem_successors_element occurs]
      refine and_congr_right fun follows => ?_
      exact ih (mem_elements_of_mem_follow follows).2

theorem reads_iff_accepts (expression : Expression) (word : List Element) :
    (ofExpression expression).Reads word ↔ expression.Accepts word := by
  cases word with
  | nil => simp [Reads, Accepts, sink_mem_successors_source]
  | cons item word =>
      simp only [Reads, Accepts, List.map_cons, List.cons_append, List.isChain_cons_cons,
        element_mem_successors_source]
      refine and_congr_right fun begins => ?_
      exact isChain_element_iff_continues (mem_elements_of_mem_first begins) word

theorem reads_iff_mem_language {expression : Expression} (distinct : expression.elements.Nodup)
    (word : List Element) :
    (ofExpression expression).Reads word ↔ word ∈ expression.language :=
  (reads_iff_accepts expression word).trans (mem_language_iff_accepts distinct word).symm

/-- The graph of an expression whose elements are all different reads exactly the sequences of
the expression, and none of its elements is dead. -/
theorem ofExpression_reads_language (expression : Expression)
    (distinct : expression.elements.Nodup) :
    (∀ word, (ofExpression expression).Reads word ↔ word ∈ expression.language) ∧
      ∀ item ∈ expression.elements,
        ∃ word, item ∈ word ∧ (ofExpression expression).Reads word := by
  refine ⟨reads_iff_mem_language distinct, ?_⟩
  intro item occurs
  obtain ⟨word, member, within⟩ := exists_mem_language_of_mem_elements occurs
  exact ⟨word, within, (reads_iff_mem_language distinct word).mpr member⟩

/-- Rounds of a repetition that may each be empty, and in which a repetition is nested. -/
theorem ofExpression_reads_language_nested :
    let first := element ⟨0, "first"⟩
    let second := element ⟨1, "second"⟩
    let expression := oneOrMore (sequence (oneOrMore (choice first epsilon)) (optional second))
    expression.elements.Nodup ∧
      [] ∈ expression.language ∧
      [⟨1, "second"⟩, ⟨0, "first"⟩, ⟨0, "first"⟩] ∈ expression.language := by
  intro first second expression
  have distinct : expression.elements.Nodup := by decide
  have reads := (ofExpression_reads_language expression distinct).1
  refine ⟨distinct, (reads _).mp ?_, (reads _).mp ?_⟩ <;> simp only [Graph.Reads] <;> decide

end Graph

end Typeloom
