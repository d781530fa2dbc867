import Typeloom.Proofs.Schema.Loaded
import Typeloom.Proofs.Schema.Readers
import Typeloom.Proofs.Schema.Targets

/-!
# Places of definitions

A node carries the place at which it is read.  A document keeps its definitions under one of two
keywords, and a reference may name a definition under either of them: what it leads to lies under
the keyword of the document.  So a reference leads to the place that it names only if it has that
keyword, and nothing in front of it.
-/

namespace Typeloom

open Reporting SchemaReader

/-! ## The places of definitions -/

/-- Whether a document is what a value is read as. -/
def Document.IsReadFrom (document : Document) (value : Json) : Prop :=
  ∃ systemId rootName channel after,
    onChannel (readDocument systemId rootName value) channel = (.ok document, after)

/-- A definition of a document stands under the keyword for definitions, and under its name
there. -/
theorem Document.IsReadFrom.exists_entry {document : Document} {members : Json.Members}
    (isRead : document.IsReadFrom (.object members)) (distinct : (Json.object members).DistinctKeys)
    {definition : Definition} (occurs : definition ∈ document.definitions) :
    ∃ entries body, Table.get? members (definitionsKeyword members) = some (.object entries) ∧
      Table.get? entries definition.name = some body ∧
      ReadsAs document.systemId (placeOf (definitionsKeyword members) definition.name) body
        definition.body := by
  obtain ⟨systemId, rootName, channel, after, returns⟩ := isRead
  obtain ⟨rfl, entries, between, areEntries, areRead⟩ :=
    Loading.exists_entries_of_readDocument returns
  obtain ⟨body, isEntry, reads⟩ :=
    stemsFrom_readDefinitions _ _ entries channel between _ areRead definition occurs
  have distinctEntries := Loading.distinct_of_optionalMembers (distinct.memberOrNull _) areEntries
  exact ⟨entries, body, Loading.get?_of_optionalMembers areEntries isEntry,
    (Table.get?_eq_some_iff distinctEntries).mpr isEntry, reads⟩

namespace Library

/-! ## The places that references name -/

theorem pieces_of_definitionName? {fragment : List Char} {name : String}
    (isName : definitionName? fragment = some name) : ∃ start keyword,
      (keyword = "definitions" ∨ keyword = "$defs") ∧
        Text.pieces '/' fragment = [start, keyword.toList, name.toList] := by
  unfold definitionName? at isName
  split at isName
  · rename_i start keyword rest arePieces
    split at isName
    · rename_i isKeyword
      cases isName
      simp only [Bool.or_eq_true, decide_eq_true_eq] at isKeyword
      refine ⟨start, String.ofList keyword, ?_, by simpa using arePieces⟩
      exact isKeyword.imp (fun same => by rw [same, String.ofList_toList])
        fun same => by rw [same, String.ofList_toList]
    · cases isName
  · cases isName

theorem definitionsKeyword_eq (members : Json.Members) :
    definitionsKeyword members = "definitions" ∨ definitionsKeyword members = "$defs" := by
  unfold definitionsKeyword
  split
  · exact Or.inr rfl
  · exact Or.inl rfl

/-- A place below the whole document is that of a definition under a keyword just if it has no
other start and that keyword. -/
theorem placeOf_eq_iff {fragment start : List Char} {given keyword name : String}
    (arePieces : Text.pieces '/' fragment = [start, given.toList, name.toList])
    (isKeyword : keyword = "definitions" ∨ keyword = "$defs") :
    (placeOf keyword name).toList = fragment ↔ start = ['#'] ∧ given = keyword := by
  have ofPlace : (placeOf keyword name).toList =
      ['#'] ++ '/' :: (keyword.toList ++ '/' :: name.toList) := by
    simp [placeOf]
  rw [ofPlace]
  constructor
  · rintro rfl
    have noSlash : '/' ∉ keyword.toList := by rcases isKeyword with rfl | rfl <;> decide
    rw [Text.pieces_append_cons, Text.pieces_append_cons, Text.pieces_of_notMem (by decide),
      Text.pieces_of_notMem noSlash] at arePieces
    obtain ⟨isStart, isGiven, -⟩ : ['#'] = start ∧ keyword.toList = given.toList ∧ _ := by
      simpa using arePieces
    exact ⟨isStart.symm, (String.toList_inj.mp isGiven).symm⟩
  · rintro ⟨rfl, rfl⟩
    rw [← Text.joined_pieces '/' fragment, arePieces]
    simp [Text.joined, List.intercalate]

/-- A definition that a reference leads to stands under its name and the keyword of its document.
It is at the place that the reference names just if the reference has that keyword, with nothing
but the mark for the whole document in front of it. -/
theorem place_of_resolve {library : Library} {origin : Nat} {reference : Reference}
    {target : Target} {text : String} {members : Json.Members}
    (resolves : library.resolve origin reference = .ok (some target))
    (isText : reference.target = .text text)
    (noRoot : isRootFragment (fragmentOf text) = false)
    (isRead : target.document.IsReadFrom (.object members))
    (distinct : (Json.object members).DistinctKeys) :
    ∃ start keyword entries body, (keyword = "definitions" ∨ keyword = "$defs") ∧
      Text.pieces '/' (fragmentOf text) = [start, keyword.toList, target.key.toList] ∧
      Table.get? members (definitionsKeyword members) = some (.object entries) ∧
      Table.get? entries target.key = some body ∧
      ReadsAs target.document.systemId (placeOf (definitionsKeyword members) target.key) body
        target.node ∧
      (target.node.pointer.toList = fragmentOf text ↔
        start = ['#'] ∧ keyword = definitionsKeyword members) := by
  obtain ⟨other, index, document, isOther, -, lies⟩ := exists_targetIn_of_resolve resolves
  obtain rfl := Json.text.inj (isText.symm.trans isOther)
  obtain ⟨name, definition, number, isName, finds, -, rfl⟩ := definition_of_targetIn noRoot lies
  obtain ⟨start, keyword, isKeyword, arePieces⟩ := pieces_of_definitionName? isName
  obtain rfl : definition.name = name := by simpa using List.find?_some finds
  obtain ⟨entries, body, areEntries, isBody, reads⟩ :=
    isRead.exists_entry distinct (List.mem_of_find?_eq_some finds)
  refine ⟨start, keyword, entries, body, isKeyword, arePieces, areEntries, isBody, reads, ?_⟩
  rw [reads.holds (returns_pointer _ _ body)]
  exact placeOf_eq_iff arePieces (definitionsKeyword_eq members)

end Library

/-! ## Two keywords -/

/-- A document with definitions of the same name under both keywords. -/
def twofold : Json.Members :=
  [("$defs", .object [("Item", .object [("type", .text "string")])]),
   ("definitions", .object [("Item", .object [("type", .text "integer")])])]

theorem distinctKeys_twofold : (Json.object twofold).DistinctKeys := by
  have single (type : String) :
      (Json.object [("Item", .object [("type", .text type)])]).DistinctKeys := by
    refine .object (List.nodup_singleton _) (List.forall_mem_singleton.mpr ?_)
    exact .object (List.nodup_singleton _) (List.forall_mem_singleton.mpr (.text type))
  refine .object (by decide) (List.forall_mem_cons.mpr ⟨single "string", ?_⟩)
  exact List.forall_mem_singleton.mpr (single "integer")

/-- What is read of it. -/
def twofoldDocument : Document where
  systemId := "file:///work/doc.json"
  rootName := "Doc"
  root := none
  definitions :=
    [{ name := "Item", pointer := "#/$defs/Item"
       body := .primitive { pointer := "#/$defs/Item" } (.text "string") }]
  package := .null

theorem isReadFrom_twofold : twofoldDocument.IsReadFrom (.object twofold) :=
  ⟨"file:///work/doc.json", "Doc", {}, { polls := 1 }, by rfl⟩

/-- The definition of the document as the target of a reference. -/
def twofoldTarget : Target where
  address := ⟨0, some 0⟩
  document := twofoldDocument
  key := "Item"
  node := .primitive { pointer := "#/$defs/Item" } (.text "string")

/-- A reference of the document by a text. -/
def referenceTo (text : String) : Reference :=
  { info := { pointer := "#/$defs/Order" }, target := .text text }

namespace Library

theorem place_of_resolve_twofold :
    Library.resolve { documents := [twofoldDocument] } 0 (referenceTo "#/$defs/Item") =
        .ok (some twofoldTarget) ∧
      isRootFragment (fragmentOf "#/$defs/Item") = false ∧
      twofoldDocument.IsReadFrom (.object twofold) ∧ (Json.object twofold).DistinctKeys ∧
      twofoldTarget.node.pointer.toList = fragmentOf "#/$defs/Item" := by
  have resolves : Library.resolve { documents := [twofoldDocument] } 0
      (referenceTo "#/$defs/Item") = .ok (some twofoldTarget) := by rfl
  have noRoot : isRootFragment (fragmentOf "#/$defs/Item") = false := by decide
  obtain ⟨start, keyword, entries, body, -, arePieces, -, -, -, names_iff⟩ :=
    place_of_resolve resolves rfl noRoot isReadFrom_twofold distinctKeys_twofold
  refine ⟨resolves, noRoot, isReadFrom_twofold, distinctKeys_twofold, names_iff.mpr ?_⟩
  have parts : Text.pieces '/' (fragmentOf "#/$defs/Item") =
      [['#'], "$defs".toList, "Item".toList] := by decide
  obtain ⟨isStart, others⟩ := List.cons.inj (parts.symm.trans arePieces)
  exact ⟨isStart.symm, (String.toList_inj.mp (List.cons.inj others).1).symm⟩

/-- A reference with the other keyword leads to the same definition, which is not at the place that
it names. -/
theorem resolve_twofold_elsewhere :
    Library.resolve { documents := [twofoldDocument] } 0 (referenceTo "#/definitions/Item") =
        .ok (some twofoldTarget) ∧
      twofoldDocument.IsReadFrom (.object twofold) ∧ (Json.object twofold).DistinctKeys ∧
      isRootFragment (fragmentOf "#/definitions/Item") = false ∧
      twofoldTarget.node.pointer.toList ≠ fragmentOf "#/definitions/Item" :=
  ⟨by rfl, isReadFrom_twofold, distinctKeys_twofold, by decide, by decide⟩

end Library

end Typeloom
