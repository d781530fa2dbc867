/-!
# Content model expressions

A content model is a regular expression over the properties of an object.  Every occurrence of a
property is an element of its own.  An expression knows its first and last elements, whether it
admits nothing at all, and which elements may follow an element.
-/

namespace Typeloom

/-- An occurrence of a property. -/
structure Element where
  number : Nat
  name : String
deriving DecidableEq, Repr, Inhabited

/-- A regular expression over elements. -/
inductive Expression where
  | element (element : Element)
  | epsilon
  | sequence (left right : Expression)
  | choice (left right : Expression)
  | oneOrMore (child : Expression)
deriving DecidableEq, Repr, Inhabited

namespace Expression

/-- The members of two lists without duplicates, those of the second one only if they are not in
the first. -/
def merge {α : Type} [DecidableEq α] (left right : List α) : List α :=
  left ++ right.filter fun item => !left.contains item

@[simp]
theorem mem_merge {α : Type} [DecidableEq α] {item : α} {left right : List α} :
    item ∈ merge left right ↔ item ∈ left ∨ item ∈ right := by
  by_cases known : item ∈ left <;> simp [merge, known]

def nullable : Expression → Bool
  | element _ => false
  | epsilon => true
  | sequence left right => left.nullable && right.nullable
  | choice left right => left.nullable || right.nullable
  | oneOrMore child => child.nullable

def first : Expression → List Element
  | element item => [item]
  | epsilon => []
  | sequence left right =>
      if left.nullable then merge left.first right.first else left.first
  | choice left right => merge left.first right.first
  | oneOrMore child => child.first

def last : Expression → List Element
  | element item => [item]
  | epsilon => []
  | sequence left right =>
      if right.nullable then merge right.last left.last else right.last
  | choice left right => merge left.last right.last
  | oneOrMore child => child.last

def elements : Expression → List Element
  | element item => [item]
  | epsilon => []
  | sequence left right => left.elements ++ right.elements
  | choice left right => left.elements ++ right.elements
  | oneOrMore child => child.elements

/-- The elements that can come right after an element. -/
def follow : Expression → Element → List Element
  | element _, _ => []
  | epsilon, _ => []
  | sequence left right, item =>
      merge (merge (left.follow item) (right.follow item))
        (if left.last.contains item then right.first else [])
  | choice left right, item => merge (left.follow item) (right.follow item)
  | oneOrMore child, item =>
      merge (child.follow item) (if child.last.contains item then child.first else [])

/-- What is known of an expression. -/
structure Profile where
  nullable : Bool
  first : List Element
  last : List Element
  follow : Element → List Element

/-- All that is known of an expression, found in one pass. -/
def profile : Expression → Profile
  | element item => ⟨false, [item], [item], fun _ => []⟩
  | epsilon => ⟨true, [], [], fun _ => []⟩
  | sequence left right =>
      let before := left.profile
      let after := right.profile
      { nullable := before.nullable && after.nullable
        first := if before.nullable then merge before.first after.first else before.first
        last := if after.nullable then merge after.last before.last else after.last
        follow := fun item =>
          merge (merge (before.follow item) (after.follow item))
            (if before.last.contains item then after.first else []) }
  | choice left right =>
      let one := left.profile
      let other := right.profile
      { nullable := one.nullable || other.nullable
        first := merge one.first other.first
        last := merge one.last other.last
        follow := fun item => merge (one.follow item) (other.follow item) }
  | oneOrMore child =>
      let inner := child.profile
      { inner with
        follow := fun item =>
          merge (inner.follow item) (if inner.last.contains item then inner.first else []) }

theorem profile_eq (expression : Expression) :
    expression.profile =
      ⟨expression.nullable, expression.first, expression.last, expression.follow⟩ := by
  induction expression with
  | element item => simp only [profile, nullable, first, last]; congr 1
  | epsilon => simp only [profile, nullable, first, last]; congr 1
  | sequence left right leftHypothesis rightHypothesis =>
      simp only [profile, leftHypothesis, rightHypothesis, nullable, first, last]
      congr 1
  | choice left right leftHypothesis rightHypothesis =>
      simp only [profile, leftHypothesis, rightHypothesis, nullable, first, last]
      congr 1
  | oneOrMore child childHypothesis =>
      simp only [profile, childHypothesis, nullable, first, last]
      congr 1

def render : Expression → String
  | element item => item.name
  | epsilon => "#epsilon"
  | sequence left right => left.render ++ "," ++ right.render
  | choice left right => "(" ++ left.render ++ "|" ++ right.render ++ ")"
  | oneOrMore child => "(" ++ child.render ++ ")+"

/-- One expression after another, without those that admit nothing but the empty sequence by
being empty. -/
def append (left right : Expression) : Expression :=
  match left, right with
  | left, epsilon => left
  | epsilon, right => right
  | left, right => sequence left right

/-- Several expressions one after the other. -/
def sequenceOf (expressions : List Expression) : Expression :=
  expressions.foldl append epsilon

def optional (expression : Expression) : Expression :=
  if expression.nullable then expression else choice expression epsilon

/-- Number the elements of an expression from left to right, and give the next number. -/
def numberFrom (next : Nat) : Expression → Expression × Nat
  | element item => (element { item with number := next }, next + 1)
  | epsilon => (epsilon, next)
  | sequence left right =>
      let (left, next) := left.numberFrom next
      let (right, next) := right.numberFrom next
      (sequence left right, next)
  | choice left right =>
      let (left, next) := left.numberFrom next
      let (right, next) := right.numberFrom next
      (choice left right, next)
  | oneOrMore child =>
      let (child, next) := child.numberFrom next
      (oneOrMore child, next)

def numbered (expression : Expression) : Expression :=
  (expression.numberFrom 0).1

end Expression

end Typeloom
