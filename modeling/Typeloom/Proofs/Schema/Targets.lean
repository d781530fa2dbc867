import Typeloom.Schema.Library

/-!
# The targets of references

What a reference points at is a root or a definition of one of the documents of the library, and
the place of the target is the place of that root or definition.
-/

namespace Typeloom

/-- The key of a root or definition in its document. -/
def NamedNode.key (named : NamedNode) : String :=
  match named.address.definition with
  | none => Library.rootKey
  | some _ => named.name

namespace Library

theorem of_mem_namedNodesOf {index : Nat} {document : Document} {named : NamedNode}
    (member : named ∈ namedNodesOf index document) :
    named.document = document ∧ named.address.document = index := by
  rcases List.mem_append.mp member with isRoot | isDefinition
  · obtain ⟨root, -, rfl⟩ := List.mem_map.mp isRoot
    exact ⟨rfl, rfl⟩
  · obtain ⟨⟨definition, number⟩, -, rfl⟩ := List.mem_map.mp isDefinition
    exact ⟨rfl, rfl⟩

theorem mem_namedNodes {library : Library} {named : NamedNode} :
    named ∈ library.namedNodes ↔
      ∃ index document, library.documents[index]? = some document ∧
        named ∈ namedNodesOf index document := by
  constructor
  · intro member
    obtain ⟨⟨document, index⟩, numbered, within⟩ := List.mem_flatMap.mp member
    exact ⟨index, document, List.mem_zipIdx_iff_getElem?.mp numbered, within⟩
  · rintro ⟨index, document, found, within⟩
    exact List.mem_flatMap.mpr ⟨(document, index), List.mem_zipIdx_iff_getElem?.mpr found, within⟩

theorem eq_of_mem_namedNodesOf {index : Nat} {document : Document} {left right : NamedNode}
    (isLeft : left ∈ namedNodesOf index document) (isRight : right ∈ namedNodesOf index document)
    (same : left.address = right.address) : left = right := by
  rcases List.mem_append.mp isLeft with leftRoot | leftDefinition <;>
    rcases List.mem_append.mp isRight with rightRoot | rightDefinition
  · obtain ⟨root, isRoot, rfl⟩ := List.mem_map.mp leftRoot
    obtain ⟨other, isOther, rfl⟩ := List.mem_map.mp rightRoot
    obtain rfl : root = other :=
      Option.some.inj ((Option.mem_toList.mp isRoot).symm.trans (Option.mem_toList.mp isOther))
    rfl
  · obtain ⟨root, -, rfl⟩ := List.mem_map.mp leftRoot
    obtain ⟨⟨definition, number⟩, -, rfl⟩ := List.mem_map.mp rightDefinition
    cases same
  · obtain ⟨⟨definition, number⟩, -, rfl⟩ := List.mem_map.mp leftDefinition
    obtain ⟨root, -, rfl⟩ := List.mem_map.mp rightRoot
    cases same
  · obtain ⟨⟨definition, number⟩, isDefinition, rfl⟩ := List.mem_map.mp leftDefinition
    obtain ⟨⟨other, otherNumber⟩, isOther, rfl⟩ := List.mem_map.mp rightDefinition
    obtain rfl : number = otherNumber := by injection same with _ isNumber; injection isNumber
    have found := List.mem_zipIdx_iff_getElem?.mp isDefinition
    obtain rfl : definition = other :=
      Option.some.inj (found.symm.trans (List.mem_zipIdx_iff_getElem?.mp isOther))
    rfl

/-- Different roots and definitions are at different places. -/
theorem eq_of_address_eq {library : Library} {left right : NamedNode}
    (isLeft : left ∈ library.namedNodes) (isRight : right ∈ library.namedNodes)
    (same : left.address = right.address) : left = right := by
  obtain ⟨index, document, found, inLeft⟩ := mem_namedNodes.mp isLeft
  obtain ⟨otherIndex, other, foundOther, inRight⟩ := mem_namedNodes.mp isRight
  have sameIndex : index = otherIndex := by
    rw [← (of_mem_namedNodesOf inLeft).2, ← (of_mem_namedNodesOf inRight).2, same]
  subst sameIndex
  obtain rfl : document = other := Option.some.inj (found.symm.trans foundOther)
  exact eq_of_mem_namedNodesOf inLeft inRight same

/-- What lies at a place in a document that is not the root is the definition that the place
names. -/
theorem definition_of_targetIn {index : Nat} {document : Document} {fragment : List Char}
    {target : Target} (noRoot : isRootFragment fragment = false)
    (lies : targetIn index document fragment = some target) :
    ∃ name definition number, definitionName? fragment = some name ∧
      document.definition? name = some definition ∧
      document.definitions.findIdx? (·.name = name) = some number ∧
      target = { address := ⟨index, some number⟩, document, key := definition.name
                 node := definition.body } := by
  rw [targetIn, noRoot] at lies
  simp only [Bool.false_eq_true, if_false, Option.bind_eq_bind, Option.bind_eq_some_iff,
    Option.pure_def, Option.some.injEq] at lies
  obtain ⟨name, isName, definition, finds, number, counts, rfl⟩ := lies
  exact ⟨name, definition, number, isName, finds, counts, rfl⟩

/-- What lies at a place in a document is a root or definition of the document. -/
theorem exists_namedNode_of_targetIn {index : Nat} {document : Document} {fragment : List Char}
    {target : Target} (lies : targetIn index document fragment = some target) :
    ∃ named ∈ namedNodesOf index document,
      named.address = target.address ∧ named.document = target.document ∧
        named.key = target.key ∧ named.node = target.node := by
  cases isRoot : isRootFragment fragment with
  | true =>
      rw [targetIn, if_pos isRoot] at lies
      obtain ⟨root, isRoot, rfl⟩ := Option.map_eq_some_iff.mp lies
      exact ⟨⟨document.rootName, ⟨index, none⟩, document, root⟩,
        List.mem_append_left _ (by simp [isRoot]), rfl, rfl, rfl, rfl⟩
  | false =>
      obtain ⟨name, definition, number, -, finds, counts, rfl⟩ := definition_of_targetIn isRoot lies
      have counted : document.definitions[number]? = some definition := by
        rwa [Document.definition?, List.find?_eq_bind_findIdx?_getElem?, counts] at finds
      have numbered : (definition, number) ∈ document.definitions.zipIdx :=
        List.mem_zipIdx_iff_getElem?.mpr counted
      exact ⟨⟨definition.name, ⟨index, some number⟩, document, definition.body⟩,
        List.mem_append_right _ (List.mem_map.mpr ⟨_, numbered, rfl⟩), rfl, rfl, rfl, rfl⟩

/-- What a reference points at lies in a document of the library, at the place that the text of the
reference names. -/
theorem exists_targetIn_of_resolve {library : Library} {origin : Nat} {reference : Reference}
    {target : Target} (resolves : library.resolve origin reference = .ok (some target)) :
    ∃ text index document, reference.target = .text text ∧
      library.documents[index]? = some document ∧
      targetIn index document (fragmentOf text) = some target := by
  obtain ⟨text, isText, resolves⟩ := exists_of_bind_eq_ok resolves
  have isTarget : reference.target = .text text := by
    cases given : reference.target <;> rw [given] at isText <;> cases isText
    rfl
  unfold resolveText at resolves
  split at resolves
  · cases resolves
  · obtain ⟨index?, -, resolves⟩ := exists_of_bind_eq_ok resolves
    cases index? with
    | none => cases resolves
    | some index =>
        dsimp only at resolves
        split at resolves
        · cases resolves
        · rename_i document found
          exact ⟨text, index, document, isTarget, found, Except.ok.inj resolves⟩

/-- What a reference points at is a root or definition of a document of the library. -/
theorem exists_namedNode_of_resolve {library : Library} {origin : Nat} {reference : Reference}
    {target : Target} (resolves : library.resolve origin reference = .ok (some target)) :
    ∃ named ∈ library.namedNodes,
      named.address = target.address ∧ named.document = target.document ∧
        named.key = target.key ∧ named.node = target.node := by
  obtain ⟨text, index, document, -, found, lies⟩ := exists_targetIn_of_resolve resolves
  obtain ⟨named, within, same⟩ := exists_namedNode_of_targetIn lies
  exact ⟨named, mem_namedNodes.mpr ⟨index, document, found, within⟩, same⟩

end Library

end Typeloom
