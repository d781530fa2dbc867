import Mathlib.Data.Multiset.Bind
import Typeloom.Proofs.Schema.Loaded
import Typeloom.Proofs.Schema.Targets

/-!
# Libraries in a different order

A library may hold the documents of another one in a different order, and each of these documents
its definitions in a different order.  A reference from a document then still resolves to the root
or definition of the same name in the document with the same address.
-/

namespace Typeloom

/-! ## Lists in a different order -/

section Related

variable {α β γ δ : Type} {relation : α → β → Prop} {left : List α} {right : List β}

theorem rel_of_perm {middle : List α} (perm : left.Perm middle)
    (related : List.Forall₂ relation middle right) :
    Multiset.Rel relation (left : Multiset α) (right : Multiset β) := by
  rw [Multiset.coe_eq_coe.mpr perm]
  clear perm
  induction related with
  | nil => exact .zero
  | cons relates _ ih => exact .cons relates ih

/-- What is related to a list in a different order is related to it item by item before it is put
into this order. -/
theorem exists_of_rel (related : Multiset.Rel relation (left : Multiset α) (right : Multiset β)) :
    ∃ middle, List.Forall₂ relation left middle ∧ middle.Perm right := by
  induction left generalizing right with
  | nil =>
      have isNil : (right : Multiset β) = 0 := Multiset.rel_zero_left.mp related
      exact ⟨[], .nil, (Multiset.coe_eq_coe.mp isNil).symm⟩
  | cons item rest ih =>
      rw [← Multiset.cons_coe, Multiset.rel_cons_left] at related
      obtain ⟨other, others, relates, relatedRest, isRight⟩ := related
      induction others using Quotient.inductionOn with
      | h others =>
          obtain ⟨middle, areRelated, perm⟩ := ih relatedRest
          exact ⟨other :: middle, .cons relates areRelated,
            (perm.cons other).trans (Multiset.coe_eq_coe.mp isRight.symm)⟩

theorem rel_filter {kept : α → Bool} {keptToo : β → Bool}
    (related : Multiset.Rel relation (left : Multiset α) (right : Multiset β))
    (alike : ∀ item other, relation item other → kept item = keptToo other) :
    Multiset.Rel relation (left.filter kept : Multiset α)
      (right.filter keptToo : Multiset β) := by
  obtain ⟨middle, areRelated, perm⟩ := exists_of_rel related
  rw [← Multiset.coe_eq_coe.mpr (perm.filter keptToo)]
  clear related perm
  induction areRelated with
  | nil => exact .zero
  | @cons item other _ _ relates _ ih =>
      rw [List.filter_cons, List.filter_cons, alike item other relates]
      split
      · exact .cons relates ih
      · exact ih

theorem perm_map_of_rel {view : α → γ} {viewToo : β → γ}
    (related : Multiset.Rel relation (left : Multiset α) (right : Multiset β))
    (alike : ∀ item other, relation item other → view item = viewToo other) :
    (left.map view).Perm (right.map viewToo) := by
  have same : Multiset.Rel (· = ·) ((left : Multiset α).map view)
      ((right : Multiset β).map viewToo) :=
    Multiset.rel_map.mpr (related.mono fun item _ other _ => alike item other)
  exact Multiset.coe_eq_coe.mp (Multiset.rel_eq.mp same)

end Related

/-! ## Documents and libraries -/

/-- Whether a document is another one with its definitions in a different order. -/
structure Document.Reordered (document other : Document) : Prop where
  systemId : document.systemId = other.systemId
  rootName : document.rootName = other.rootName
  root : document.root = other.root
  package : document.package = other.package
  definitions : document.definitions.Perm other.definitions

/-- Whether a library is another one with its documents, and the definitions of each of them, in a
different order. -/
def Library.Reordered (library other : Library) : Prop :=
  ∃ documents, library.documents.Perm documents ∧
    List.Forall₂ Document.Reordered documents other.documents

/-- The library with its documents, and their definitions, in the opposite order. -/
def Library.reversed (library : Library) : Library where
  documents := library.documents.reverse.map fun document =>
    { document with definitions := document.definitions.reverse }

theorem Library.reordered_reversed (library : Library) : library.Reordered library.reversed := by
  refine ⟨library.documents.reverse, library.documents.reverse_perm.symm, ?_⟩
  refine List.forall₂_map_right_iff.mpr (List.forall₂_same.mpr fun document _ => ?_)
  exact ⟨rfl, rfl, rfl, rfl, document.definitions.reverse_perm.symm⟩

/-- Where a target lies: the address of its document, and its name there. -/
def Target.place (target : Target) : String × String :=
  (target.document.systemId, target.key)

namespace Library

/-- Where what is at a place in a document lies depends on the root of the document and the names of
its definitions only. -/
theorem place_targetIn (index : Nat) (document : Document) (fragment : List Char) :
    (targetIn index document fragment).map Target.place =
      if isRootFragment fragment then document.root.map fun _ => (document.systemId, rootKey)
      else (definitionName? fragment).bind fun name =>
        if name ∈ document.definitions.map Definition.name then some (document.systemId, name)
        else none := by
  rw [targetIn]
  split
  · rw [Option.map_map]
    rfl
  · cases definitionName? fragment with
    | none => rfl
    | some name =>
        cases found : document.definition? name with
        | none =>
            have undefined : name ∉ document.definitions.map Definition.name := by
              simpa [Document.definition?] using found
            simpa [found] using undefined
        | some definition =>
            obtain rfl : definition.name = name := by simpa using List.find?_some found
            have defined : definition.name ∈ document.definitions.map Definition.name :=
              List.mem_map_of_mem (List.mem_of_find?_eq_some found)
            have counts := found
            rw [Document.definition?, List.find?_eq_bind_findIdx?_getElem?] at counts
            obtain ⟨number, counts, -⟩ := Option.bind_eq_some_iff.mp counts
            simpa [found, counts, Target.place] using defined

end Library

theorem Document.Reordered.place_targetIn {document other : Document}
    (reordered : document.Reordered other) (index index' : Nat) (fragment : List Char) :
    (Library.targetIn index document fragment).map Target.place =
      (Library.targetIn index' other fragment).map Target.place := by
  have names : ∀ name, name ∈ document.definitions.map Definition.name ↔
      name ∈ other.definitions.map Definition.name :=
    fun name => (reordered.definitions.map _).mem_iff
  simp only [Library.place_targetIn, reordered.systemId, reordered.root, names]

namespace Library

/-- Whether documents of two libraries have the same address. -/
def SameAddress (library other : Library) (index index' : Nat) : Prop :=
  ∃ document same, library.documents[index]? = some document ∧
    other.documents[index']? = some same ∧ document.systemId = same.systemId

section Documents

variable {library other : Library} {document same : Document} {systemId : String}

theorem Reordered.rel (reordered : library.Reordered other) :
    Multiset.Rel Document.Reordered (library.documents : Multiset Document)
      (other.documents : Multiset Document) := by
  obtain ⟨documents, perm, areReordered⟩ := reordered
  exact rel_of_perm perm areReordered

theorem Reordered.map_systemId (reordered : library.Reordered other) :
    (library.documents.map Document.systemId).Perm (other.documents.map Document.systemId) :=
  perm_map_of_rel reordered.rel fun _ _ isReordered => isReordered.systemId

/-- Documents with the same address correspond. -/
theorem Reordered.of_systemId (reordered : library.Reordered other)
    (distinct : (library.documents.map Document.systemId).Nodup)
    (occurs : document ∈ library.documents) (occursToo : same ∈ other.documents)
    (sameId : document.systemId = same.systemId) : document.Reordered same := by
  obtain ⟨original, isOriginal, isReordered⟩ :=
    Multiset.exists_mem_of_rel_of_mem (Multiset.rel_flip.mpr reordered.rel) occursToo
  obtain rfl : original = document :=
    List.inj_on_of_nodup_map distinct isOriginal occurs (isReordered.systemId.trans sameId.symm)
  exact isReordered

theorem exists_of_indexOf? {library : Library} {index : Nat}
    (found : library.indexOf? systemId = some index) :
    ∃ document, library.documents[index]? = some document ∧ document.systemId = systemId := by
  obtain ⟨inside, isSame, -⟩ := List.findIdx?_eq_some_iff_getElem.mp found
  exact ⟨_, List.getElem?_eq_getElem inside, by simpa using isSame⟩

theorem indexOf?_eq_none_iff {library : Library} :
    library.indexOf? systemId = none ↔
      systemId ∉ library.documents.map Document.systemId := by
  rw [indexOf?, List.findIdx?_eq_none_iff]
  simp

/-- What is at a place in the document with an address. -/
def targetFrom (library : Library) (systemId : String) (fragment : List Char) :
    Except Fault (Option Target) :=
  match library.indexOf? systemId with
  | none => return none
  | some index =>
      match library.documents[index]? with
      | none => return none
      | some document => return targetIn index document fragment

theorem Reordered.place_targetFrom (reordered : library.Reordered other)
    (distinct : (library.documents.map Document.systemId).Nodup) (systemId : String)
    (fragment : List Char) :
    (library.targetFrom systemId fragment).map (Option.map Target.place) =
      (other.targetFrom systemId fragment).map (Option.map Target.place) := by
  have known : systemId ∈ library.documents.map Document.systemId ↔
      systemId ∈ other.documents.map Document.systemId := reordered.map_systemId.mem_iff
  rw [targetFrom, targetFrom]
  cases inLibrary : library.indexOf? systemId with
  | none =>
      rw [indexOf?_eq_none_iff, known, ← indexOf?_eq_none_iff] at inLibrary
      rw [inLibrary]
  | some index =>
      obtain ⟨document, atIndex, isId⟩ := exists_of_indexOf? inLibrary
      cases inOther : other.indexOf? systemId with
      | none =>
          rw [indexOf?_eq_none_iff, ← known, ← indexOf?_eq_none_iff, inLibrary] at inOther
          cases inOther
      | some index' =>
          obtain ⟨same, atIndex', isIdToo⟩ := exists_of_indexOf? inOther
          have isReordered := reordered.of_systemId distinct (List.mem_of_getElem? atIndex)
            (List.mem_of_getElem? atIndex') (isId.trans isIdToo.symm)
          simp only [atIndex, atIndex']
          exact congrArg Except.ok (isReordered.place_targetIn ..)

/-- From corresponding documents a reference resolves to the same place, if to any. -/
theorem Reordered.place_resolve (reordered : library.Reordered other)
    (distinct : (library.documents.map Document.systemId).Nodup) {index index' : Nat}
    (sameAddress : library.SameAddress other index index') (reference : Reference) :
    (library.resolve index reference).map (Option.map Target.place) =
      (other.resolve index' reference).map (Option.map Target.place) := by
  obtain ⟨document, same, atIndex, atIndex', sameId⟩ := sameAddress
  rw [resolve, resolve]
  cases reference.target.textOf with
  | error fault => rfl
  | ok target =>
      change (library.resolveText index target).map _ = (other.resolveText index' target).map _
      rw [resolveText, resolveText, atIndex, atIndex']
      dsimp only
      rw [documentIndex?, documentIndex?, sameId]
      split
      · have isReordered := reordered.of_systemId distinct (List.mem_of_getElem? atIndex)
          (List.mem_of_getElem? atIndex') sameId
        simp only [pure_bind, atIndex, atIndex']
        exact congrArg Except.ok (isReordered.place_targetIn ..)
      · cases Uri.documentOf same.systemId target with
        | error fault => rfl
        | ok address => exact reordered.place_targetFrom distinct address (fragmentOf target)

end Documents

end Library

/-- Whether a root or definition is another one in a library in a different order. -/
structure NamedNode.Moved (library other : Library) (named moved : NamedNode) : Prop where
  address : library.SameAddress other named.address.document moved.address.document
  document : named.document.Reordered moved.document
  key : named.key = moved.key
  name : named.name = moved.name
  node : named.node = moved.node

theorem rel_zipIdx {α β : Type} {relation : α → β → Prop} {left : List α} {right : List β}
    (related : Multiset.Rel relation (left : Multiset α) (right : Multiset β)) :
    Multiset.Rel (fun item other => relation item.1 other.1) (left.zipIdx : Multiset (α × Nat))
      (right.zipIdx : Multiset (β × Nat)) := by
  refine Multiset.rel_map.mp ?_
  rw [Multiset.map_coe, Multiset.map_coe, List.zipIdx_map_fst, List.zipIdx_map_fst]
  exact related

namespace Library

variable {library other : Library}

theorem rel_namedNodesOf {document same : Document} {index index' : Nat}
    (sameAddress : library.SameAddress other index index') (reordered : document.Reordered same) :
    Multiset.Rel (NamedNode.Moved library other) (namedNodesOf index document : Multiset NamedNode)
      (namedNodesOf index' same : Multiset NamedNode) := by
  rw [namedNodesOf, namedNodesOf, ← Multiset.coe_add, ← Multiset.coe_add]
  refine .add ?roots ?definitions
  case roots =>
    rw [reordered.root]
    cases same.root with
    | none => exact .zero
    | some node => exact .cons ⟨sameAddress, reordered, rfl, reordered.rootName, rfl⟩ .zero
  case definitions =>
    have related := rel_zipIdx
      (Multiset.rel_eq.mpr (Multiset.coe_eq_coe.mpr reordered.definitions))
    rw [← Multiset.map_coe, ← Multiset.map_coe]
    refine Multiset.rel_map.mpr (related.mono ?_)
    rintro ⟨definition, number⟩ - ⟨_, number'⟩ - rfl
    exact ⟨sameAddress, reordered, rfl, rfl, rfl⟩

/-- The roots and definitions of a library are those of the other one in a different order. -/
theorem Reordered.rel_namedNodes (reordered : library.Reordered other) :
    Multiset.Rel (NamedNode.Moved library other) (library.namedNodes : Multiset NamedNode)
      (other.namedNodes : Multiset NamedNode) := by
  rw [namedNodes, namedNodes, ← Multiset.coe_bind, ← Multiset.coe_bind]
  have related := (rel_zipIdx reordered.rel).mono fun numbered occurs numbered' occurs' same =>
    show library.SameAddress other numbered.2 numbered'.2 ∧ numbered.1.Reordered numbered'.1 from
      ⟨⟨_, _, List.mem_zipIdx_iff_getElem?.mp occurs, List.mem_zipIdx_iff_getElem?.mp occurs',
        same.systemId⟩, same⟩
  exact Multiset.rel_bind (fun _ _ same => rel_namedNodesOf same.1 same.2) related

end Library

end Typeloom
