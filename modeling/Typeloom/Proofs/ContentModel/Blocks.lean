import Typeloom.Proofs.ContentModel.Bases
import Typeloom.Proofs.ContentModel.Language

/-!
# Content models read blocks of properties

The graph of a content model reads occurrences of properties.  With the names only, it reads one
block per property, in the order of the chain of bases: the property once, not at all if it may be
missing, and any number of times if it holds an array.
-/

namespace Typeloom

namespace Expression

open scoped Computability

/-! ## Names of elements -/

/-- The sequences of names that an expression admits. -/
def names (expression : Expression) : Language String :=
  Language.map Element.name expression.language

theorem mem_names {expression : Expression} {names : List String} :
    names ∈ expression.names ↔ ∃ word ∈ expression.language, word.map Element.name = names :=
  Iff.rfl

@[simp]
theorem names_element (item : Element) : (element item).names = {[item.name]} :=
  Set.image_singleton

@[simp]
theorem names_epsilon : epsilon.names = 1 :=
  map_one (Language.map Element.name)

@[simp]
theorem names_sequence (left right : Expression) :
    (sequence left right).names = left.names * right.names :=
  map_mul (Language.map Element.name) left.language right.language

@[simp]
theorem names_choice (left right : Expression) :
    (choice left right).names = left.names + right.names :=
  map_add (Language.map Element.name) left.language right.language

@[simp]
theorem names_oneOrMore (child : Expression) :
    (oneOrMore child).names = child.names * child.names∗ := by
  rw [names, language, map_mul, Language.map_kstar]
  rfl

theorem names_append (left right : Expression) :
    (left.append right).names = left.names * right.names := by
  cases left <;> cases right <;> simp [append]

theorem names_sequenceOf (expressions : List Expression) :
    (sequenceOf expressions).names = (expressions.map names).prod := by
  have folded (before : Expression) (expressions : List Expression) :
      (expressions.foldl append before).names = before.names * (expressions.map names).prod := by
    induction expressions generalizing before with
    | nil => simp
    | cons expression expressions ih => simp [ih, names_append, mul_assoc]
  simpa [sequenceOf] using folded epsilon expressions

theorem names_optional (expression : Expression) :
    expression.optional.names = expression.names + 1 := by
  unfold optional
  split
  · rename_i skips
    have empty : ([] : List String) ∈ expression.names :=
      mem_names.mpr ⟨[], nil_mem_language_iff.mpr skips, rfl⟩
    refine (add_eq_left_iff_le.mpr ?_).symm
    intro names nothing
    obtain rfl : names = [] := nothing
    exact empty
  · simp

/-! ## Numbers of elements -/

theorem names_numberFrom (expression : Expression) (next : Nat) :
    (expression.numberFrom next).1.names = expression.names := by
  induction expression generalizing next with
  | element item => simp [numberFrom]
  | epsilon => rfl
  | sequence left right leftIH rightIH => simp [numberFrom, leftIH, rightIH]
  | choice left right leftIH rightIH => simp [numberFrom, leftIH, rightIH]
  | oneOrMore child childIH => simp [numberFrom, childIH]

theorem map_name_elements_numberFrom (expression : Expression) (next : Nat) :
    (expression.numberFrom next).1.elements.map Element.name =
      expression.elements.map Element.name := by
  induction expression generalizing next with
  | element item => rfl
  | epsilon => rfl
  | sequence left right leftIH rightIH => simp [numberFrom, elements, leftIH, rightIH]
  | choice left right leftIH rightIH => simp [numberFrom, elements, leftIH, rightIH]
  | oneOrMore child childIH => simp [numberFrom, elements, childIH]

theorem map_number_elements_numberFrom (expression : Expression) (next : Nat) :
    (expression.numberFrom next).2 = next + expression.elements.length ∧
      (expression.numberFrom next).1.elements.map Element.number =
        List.range' next expression.elements.length := by
  induction expression generalizing next with
  | element item => simp [numberFrom, elements]
  | epsilon => simp [numberFrom, elements]
  | sequence left right leftIH rightIH =>
      simp [numberFrom, elements, leftIH, rightIH, List.range'_append_1, Nat.add_assoc]
  | choice left right leftIH rightIH =>
      simp [numberFrom, elements, leftIH, rightIH, List.range'_append_1, Nat.add_assoc]
  | oneOrMore child childIH => simp [numberFrom, elements, childIH]

/-- The elements of an expression are all different when they are numbered. -/
theorem nodup_elements_numbered (expression : Expression) :
    expression.numbered.elements.Nodup := by
  have numbers := (map_number_elements_numberFrom expression 0).2
  exact List.Nodup.of_map Element.number (numbers ▸ List.nodup_range')

end Expression

/-! ## Blocks of properties -/

/-- The least number of items of a node that holds an array. -/
def Node.minItems? : Node → Option Json
  | .array _ _ minItems => some minItems
  | .tuple _ _ minItems => some minItems
  | _ => none

/-- Whether a property may be given a number of times.  It may always be given once.  It may be
missing if it is not required or holds an array for which no least number of items is given.  It
may repeat if it holds an array. -/
def Property.Admits (property : Property Node) (count : Nat) : Prop :=
  count = 1 ∨
    count = 0 ∧ (property.required = false ∨
      ∃ minItems, property.type.minItems? = some minItems ∧ minItems.isTruthy = false) ∨
    2 ≤ count ∧ property.type.minItems?.isSome

namespace ContentModel

/-- A sequence of names that consists of one block per property. -/
inductive Blocks : List (Property Node) → List String → Prop where
  | nil : Blocks [] []
  | cons {property : Property Node} {properties : List (Property Node)} {names : List String}
      (count : Nat) (admits : property.Admits count) (further : Blocks properties names) :
      Blocks (property :: properties) (List.replicate count property.name ++ names)

open scoped Computability

/-- A name as many times as one of some numbers says. -/
def repetitions (name : String) (counts : Set Nat) : Language String :=
  {names | ∃ count ∈ counts, names = List.replicate count name}

theorem singleton_eq_repetitions (name : String) :
    ({[name]} : Language String) = repetitions name {1} := by
  ext names
  change names = [name] ↔ ∃ count ∈ ({1} : Set Nat), names = List.replicate count name
  simp

theorem repetitions_add_one (name : String) (counts : Set Nat) :
    repetitions name counts + 1 = repetitions name (insert 0 counts) := by
  ext names
  change names ∈ repetitions name counts ∨ names = [] ↔
    ∃ count ∈ insert 0 counts, names = List.replicate count name
  simp only [Set.mem_insert_iff, exists_eq_or_imp, List.replicate_zero]
  exact or_comm

theorem mem_singleton_kstar {name : String} {names : List String} :
    names ∈ ({[name]} : Language String)∗ ↔ ∃ count, names = List.replicate count name := by
  rw [Language.mem_kstar]
  constructor
  · rintro ⟨rounds, rfl, single⟩
    have repeated : rounds = List.replicate rounds.length [name] :=
      List.eq_replicate_of_mem single
    exact ⟨rounds.length, by rw [repeated]; simp⟩
  · rintro ⟨count, rfl⟩
    exact ⟨List.replicate count [name], by simp, fun round member => List.eq_of_mem_replicate member⟩

theorem singleton_mul_kstar (name : String) :
    ({[name]} * {[name]}∗ : Language String) = repetitions name {count | 1 ≤ count} := by
  ext names
  rw [Language.mem_mul]
  constructor
  · rintro ⟨before, rfl, after, rounds, rfl⟩
    obtain ⟨count, rfl⟩ := mem_singleton_kstar.mp rounds
    exact ⟨count + 1, Nat.succ_pos count, rfl⟩
  · rintro ⟨count, positive, rfl⟩
    obtain ⟨further, rfl⟩ := Nat.exists_eq_add_of_le' positive
    exact ⟨[name], rfl, List.replicate further name, mem_singleton_kstar.mpr ⟨further, rfl⟩, rfl⟩

theorem names_optional_of_eq_repetitions {expression : Expression} {name : String}
    {counts : Set Nat} (reads : expression.names = repetitions name counts) (isNeeded : Bool) :
    (if isNeeded then expression else expression.optional).names =
      repetitions name (counts ∪ {count | isNeeded = false ∧ count = 0}) := by
  cases isNeeded with
  | true => simp [reads]
  | false =>
      have either : counts ∪ {count | false = false ∧ count = 0} = insert 0 counts := by
        ext count
        simp [or_comm]
      rw [either, ← repetitions_add_one, ← reads]
      exact expression.names_optional

/-- The content model of a property reads the blocks that the property admits. -/
theorem names_ofProperty (property : Property Node) :
    (ofProperty property).names = repetitions property.name {count | property.Admits count} := by
  obtain ⟨info, name, type, required, default?⟩ := property
  have single : (Expression.element ⟨0, name⟩).names = repetitions name {1} := by
    rw [Expression.names_element, singleton_eq_repetitions]
  have several : (Expression.oneOrMore (.element ⟨0, name⟩)).names =
      repetitions name {count | 1 ≤ count} := by
    rw [Expression.names_oneOrMore, Expression.names_element, singleton_mul_kstar]
  have array (minItems : Json) := names_optional_of_eq_repetitions
    (names_optional_of_eq_repetitions several minItems.isTruthy) required
  have plain := names_optional_of_eq_repetitions single required
  cases type with
  | array _ _ minItems =>
      refine (array minItems).trans (congrArg _ (Set.ext fun count => ?_))
      simp only [Set.mem_union, Set.mem_ofPred_eq, Property.Admits, Node.minItems?,
        Option.some.injEq, exists_eq_left', Option.isSome_some, and_true]
      grind
  | tuple _ _ minItems =>
      refine (array minItems).trans (congrArg _ (Set.ext fun count => ?_))
      simp only [Set.mem_union, Set.mem_ofPred_eq, Property.Admits, Node.minItems?,
        Option.some.injEq, exists_eq_left', Option.isSome_some, and_true]
      grind
  | _ =>
      refine plain.trans (congrArg _ (Set.ext fun count => ?_))
      simp [Property.Admits, Node.minItems?, and_comm]

theorem mem_prod_names_ofProperty {properties : List (Property Node)} {names : List String} :
    names ∈ (properties.map fun property => (ofProperty property).names).prod ↔
      Blocks properties names := by
  induction properties generalizing names with
  | nil =>
      constructor
      · rintro rfl
        exact .nil
      · rintro ⟨⟩
        exact rfl
  | cons property properties ih =>
      rw [List.map_cons, List.prod_cons, Language.mem_mul, names_ofProperty]
      constructor
      · rintro ⟨block, ⟨count, admits, rfl⟩, further, member, rfl⟩
        exact .cons count admits (ih.mp member)
      · rintro (_ | ⟨count, admits, further⟩)
        exact ⟨_, ⟨count, admits, rfl⟩, _, ih.mpr further, rfl⟩

theorem names_ofBodies (bodies : List (Body Node)) :
    (ofBodies bodies).names =
      ((bodies.flatMap Body.properties).map fun property => (ofProperty property).names).prod := by
  rw [ofBodies, Expression.names_sequenceOf]
  induction bodies with
  | nil => rfl
  | cons body bodies ih =>
      rw [List.map_cons, List.map_cons, List.prod_cons, ih, List.flatMap_cons, List.map_append,
        List.prod_append, ofBody, Expression.names_sequenceOf, List.map_map]
      rfl

/-! ## Content models of types -/

/-- The chain of bases of a root or definition ends.  If all references on the chain can be read,
the graph of the content model reads, name by name, the sequences that consist of one block per
property of the chain, the outermost base first; otherwise there is no content model. -/
theorem ofNamed_reads_blocks (library : Library) (named : NamedNode) :
    (∃ outcome, BaseChain library [] named.address named.node outcome) ∧
      (∀ fault, BaseChain library [] named.address named.node (.error fault) →
        ofNamed library named = .error fault) ∧
      ∀ bodies, BaseChain library [] named.address named.node (.ok bodies) →
        ∃ expression, ofNamed library named = .ok expression ∧
          ∀ names, (∃ word, (Graph.ofExpression expression).Reads word ∧
              word.map Element.name = names) ↔
            Blocks (bodies.flatMap Body.properties) names := by
  have bounded := bounded_start library named.address
  refine ⟨bounded.exists_baseChain named.node, ?unreadable, ?readable⟩
  case unreadable => exact fun fault chain => chain.ofNamed_eq
  case readable =>
    intro bodies chain
    refine ⟨(ofBodies bodies).numbered, chain.ofNamed_eq, fun names => ?_⟩
    have distinct := (ofBodies bodies).nodup_elements_numbered
    simp only [Graph.reads_iff_mem_language distinct]
    calc (∃ word ∈ (ofBodies bodies).numbered.language, word.map Element.name = names)
      _ ↔ names ∈ (ofBodies bodies).numbered.names := Expression.mem_names.symm
      _ ↔ names ∈ (ofBodies bodies).names := by
        rw [Expression.numbered, Expression.names_numberFrom]
      _ ↔ Blocks (bodies.flatMap Body.properties) names := by
        rw [names_ofBodies, mem_prod_names_ofProperty]

end ContentModel

end Typeloom
