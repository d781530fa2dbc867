import Typeloom.Proofs.Json.Positions
import Typeloom.Proofs.Report.Chronicles
import Typeloom.Proofs.Schema.Readers

/-!
# Parts of documents

Whatever is read from a document carries the place at which it is read.  It is located if there is a
position in the document that is written as this place, and the value there is the one from which it
is read.  What is reported is placed if it names such a position.
-/

namespace Typeloom

open Reporting SchemaReader

/-- What is read from a value of its own in a document. -/
inductive DocumentPart
  | ofDefinition (definition : Definition)
  | ofNode (node : Node)
  | ofProperty (property : Property Node)
  /-- What a derivation is based on. -/
  | ofBase (reference : Reference)
  /-- What a derivation adds. -/
  | ofExtension (body : Body Node)

namespace DocumentPart

def pointer : DocumentPart → String
  | .ofDefinition definition => definition.pointer
  | .ofNode node => node.pointer
  | .ofProperty property => property.info.pointer
  | .ofBase reference => reference.info.pointer
  | .ofExtension body => body.info.pointer

/-- The parts of a part.  The alternatives of a list of type names are not among them, as none of
them is read from a value of its own. -/
def children : DocumentPart → List DocumentPart
  | .ofDefinition definition => [.ofNode definition.body]
  | .ofNode (.array _ item _) => item.toList.map .ofNode
  | .ofNode (.tuple _ items _) => items.map .ofNode
  | .ofNode (.object body) => body.properties.map .ofProperty
  | .ofNode (.union _ .typeArray _) => []
  | .ofNode (.union _ _ variants) => variants.map .ofNode
  | .ofNode (.allOf _ base extension) =>
      base.toList.map .ofBase ++ extension.toList.map .ofExtension
  | .ofNode _ => []
  | .ofProperty property => [.ofNode property.type]
  | .ofBase _ => []
  | .ofExtension body => body.properties.map .ofProperty

/-- Whether a part is another one or lies within it. -/
inductive IsIn : DocumentPart → DocumentPart → Prop
  | self (part : DocumentPart) : IsIn part part
  | child {part child whole : DocumentPart} (isChild : child ∈ whole.children)
      (isIn : IsIn part child) : IsIn part whole

end DocumentPart

/-- The parts of a document that do not lie within others. -/
def Document.parts (document : Document) : List DocumentPart :=
  document.definitions.map .ofDefinition ++ document.root.toList.map .ofNode

/-- Whether a part lies within a document. -/
def Document.Contains (document : Document) (part : DocumentPart) : Prop :=
  ∃ whole ∈ document.parts, part.IsIn whole

namespace SchemaReader

/-- Whether a node is what a value at a place is read as, with nothing done that is not among some
acts. -/
def Reads (systemId pointer : String) (value : Json) (transcript : Transcript) (node : Node) :
    Prop :=
  ∃ own ⊆ transcript, Ends (readNode systemId pointer value) own (.ok node)

/-- The report that there are no values to choose from. -/
def enumReport (systemId pointer : String) : Diagnostic where
  severity := .error
  message := "enum must be a non-empty array"
  systemId := some systemId
  location := some pointer

end SchemaReader

namespace DocumentPart

variable (systemId : String) (transcript : Transcript) (value : Json)

/-- Whether a part is read from a value.  What a derivation adds is read from its second part, and
may have further properties behind, or it consists of the properties beside the parts. -/
def IsReadFrom : DocumentPart → Prop
  | .ofDefinition definition =>
      Reads systemId definition.pointer value transcript definition.body
  | .ofNode node => Reads systemId node.pointer value transcript node
  | .ofProperty property => Reads systemId property.info.pointer value transcript property.type
  | .ofBase reference => value.part? (.key "$ref") = some reference.target
  | .ofExtension body =>
      (∃ node, Reads systemId body.info.pointer value transcript node ∧
        body.info = (addedBody body.info.pointer node).info ∧
        (addedBody body.info.pointer node).properties <+: body.properties) ∨
      ∃ members required, value = .object members ∧ ∃ own ⊆ transcript,
        Ends (readDeclared systemId body.info.pointer required members) own (.ok body.properties)

/-- Whether a part shows what a value has under the keyword that decides its kind. -/
def Shows : DocumentPart → Prop
  | .ofNode (.ref reference) => value.part? (.key "$ref") = some reference.target
  | .ofNode (.const _ constant _) => value.part? (.key "const") = some constant
  | .ofNode (.enum info values _ _) => value.part? (.key "enum") = some (.array values) ∨
      .notify (enumReport systemId info.pointer) ∈ transcript
  | .ofBase reference => value.part? (.key "$ref") = some reference.target
  | _ => True

/-- Whether a part is read from the value to which the place that it carries leads. -/
def IsLocated (root : Json) (part : DocumentPart) : Prop :=
  ∃ position value, root.at? position = some value ∧ part.pointer = position.pointer ∧
    part.IsReadFrom systemId transcript value ∧ part.Shows systemId transcript value

end DocumentPart

namespace SchemaReader

/-- Whether everything within some parts is located. -/
def AreLocated (systemId : String) (root : Json) (transcript : Transcript)
    (parts : List DocumentPart) : Prop :=
  ∀ whole ∈ parts, ∀ part : DocumentPart, part.IsIn whole →
    part.IsLocated systemId transcript root

section Located

variable {systemId : String} {root : Json} {transcript : Transcript}
  {part : DocumentPart} {parts others : List DocumentPart}

theorem areLocated_nil : AreLocated systemId root transcript [] := by
  simp [AreLocated]

theorem areLocated_append : AreLocated systemId root transcript (parts ++ others) ↔
    AreLocated systemId root transcript parts ∧ AreLocated systemId root transcript others :=
  List.forall_mem_append

theorem areLocated_cons : AreLocated systemId root transcript (part :: parts) ↔
    (part.IsLocated systemId transcript root ∧
      AreLocated systemId root transcript part.children) ∧
      AreLocated systemId root transcript parts := by
  refine List.forall_mem_cons.trans (and_congr_left' ?_)
  constructor
  · intro ofAll
    refine ⟨ofAll part (.self part), ?_⟩
    intro child isChild inner isIn
    exact ofAll inner (.child isChild isIn)
  · rintro ⟨isLocated, ofChildren⟩ inner isIn
    cases isIn with
    | self => exact isLocated
    | child isChild isIn => exact ofChildren _ isChild inner isIn

theorem areLocated_singleton : AreLocated systemId root transcript [part] ↔
    part.IsLocated systemId transcript root ∧
      AreLocated systemId root transcript part.children := by
  rw [areLocated_cons, and_iff_left areLocated_nil]

end Located

/-! ## Readers that place what they report -/

/-- Whether an act, if it reports something, names a position at which there is a value. -/
def IsPlaced (root : Json) (act : Act) : Prop :=
  ∀ diagnostic, act = .notify diagnostic → ∃ position value,
    root.at? position = some value ∧ diagnostic.location = some position.pointer

/-- A computation comes to an end and places all that it reports.  A value that it yields has a
property together with any acts that those of the computation are among. -/
def Places {α : Type} (root : Json) (post : Transcript → α → Prop) (action : Reporting α) : Prop :=
  Chronicles (IsPlaced root) (fun transcript value => ∀ whole, transcript ⊆ whole →
    post whole value) action

section Rules

variable {α β : Type} {root : Json} {post : Transcript → α → Prop}

theorem Places.mono {action : Reporting α} {strong : Transcript → α → Prop}
    (places : Places root strong action)
    (implies : ∀ whole value, strong whole value → post whole value) :
    Places root post action :=
  Chronicles.mono places fun _ value _ holds whole isWithin =>
    implies whole value (holds whole isWithin)

theorem places_pure {value : α} (holds : ∀ whole, post whole value) :
    Places root post (pure value) :=
  chronicles_pure fun whole _ => holds whole

theorem places_ofExcept {result : Except Fault α}
    (holds : ∀ value, result = .ok value → ∀ whole, post whole value) :
    Places root post (ofExcept result) :=
  chronicles_ofExcept fun value isValue whole _ => holds value isValue whole

theorem places_bind {action : Reporting β} {next : β → Reporting α}
    {middle : Transcript → β → Prop} (first : Places root middle action)
    (rest : ∀ value, Places root (fun whole result => middle whole value → post whole result)
      (next value)) : Places root post (action >>= next) := by
  apply chronicles_bind
  apply Chronicles.mono first
  intro transcript value _ holds
  apply Chronicles.mono (rest value)
  intro further result _ holdsNext whole isWithin
  obtain ⟨isFirst, isRest⟩ := List.append_subset.mp isWithin
  exact holdsNext whole isRest (holds whole isFirst)

theorem places_after {action : Reporting β} {next : β → Reporting α}
    (first : Places root (fun _ _ => True) action) (rest : ∀ value, Places root post (next value)) :
    Places root post (action >>= next) :=
  places_bind first fun value => (rest value).mono fun _ _ holds _ => holds

/-- What comes next is reached only with the value of a result. -/
theorem places_after_ofExcept {result : Except Fault β} {next : β → Reporting α}
    (rest : ∀ value, result = .ok value → Places root post (next value)) :
    Places root post (ofExcept result >>= next) := by
  cases result with
  | error fault =>
      refine ⟨[], .error fault, (ends_ofExcept _).bind_error next, by simp, ?_⟩
      rintro _ ⟨⟩
  | ok value => exact rest value rfl

theorem places_poll {post : Transcript → Unit → Prop} (holds : ∀ whole, post whole ()) :
    Places root post poll :=
  chronicles_poll (by simp [IsPlaced]) fun whole _ => holds whole

theorem places_reportAt {systemId : String} {severity : Severity} {message : String}
    {position : Json.Position} {value : Json} {post : Transcript → Unit → Prop}
    (isAt : root.at? position = some value)
    (holds : ∀ whole, .notify
      { severity, message, systemId := some systemId, location := some position.pointer } ∈ whole →
        post whole ()) :
    Places root post (reportAt systemId severity message position.pointer) := by
  apply chronicles_notify
  · rintro _ ⟨⟩
    exact ⟨position, value, isAt, rfl⟩
  · intro whole isWithin
    exact holds whole (isWithin List.mem_cons_self)

theorem places_forM {items : List β} {step : β → Reporting PUnit}
    (places : ∀ item ∈ items, Places root (fun _ _ => True) (step item)) :
    Places root (fun _ _ => True) (items.forM step) := by
  induction items with
  | nil => exact places_pure fun _ => trivial
  | cons item items ih =>
      obtain ⟨first, rest⟩ := List.forall_mem_cons.mp places
      exact places_after first fun _ => ih rest

/-- What a computation has done can be kept in mind. -/
theorem Places.remember {action : Reporting α} (places : Places root post action) :
    Places root (fun whole value => post whole value ∧ ∃ own ⊆ whole, Ends action own (.ok value))
      action := by
  obtain ⟨transcript, result, ends, arePlaced, holds⟩ := places
  refine ⟨transcript, result, ends, arePlaced, ?_⟩
  rintro value rfl whole isWithin
  exact ⟨holds value rfl whole isWithin, transcript, isWithin, ends⟩

/-- What holds of every value that a computation returns holds too. -/
theorem Places.with_returns {action : Reporting α} {also : α → Prop}
    (places : Places root post action) (returns : Returns also action) :
    Places root (fun whole value => post whole value ∧ also value) action := by
  apply places.remember.mono
  rintro whole value ⟨holds, own, -, ends⟩
  exact ⟨holds, returns {} _ value (ends.onChannel_of_never rfl)⟩

end Rules

end SchemaReader

end Typeloom
