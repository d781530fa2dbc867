import Mathlib.Data.List.Basic
import Mathlib.Data.List.Induction
import Std.Data.String.ToNat
import Typeloom.Proofs.Json.Readable
import Typeloom.Text.Pieces

/-!
# Positions in values

A position leads from a value to one inside of it, by keys and by the places of items.  It is
written as a pointer, with a slash in front of each step.  If no key has a slash, the pointer can be
followed again: it leads to the value at the position, and to no other position.
-/

namespace Typeloom

namespace Json

/-- A step from a value to one of its parts. -/
inductive Step
  | key (name : String)
  | item (place : Nat)

/-- How a step is written. -/
def Step.text : Step → String
  | .key name => name
  | .item place => toString place

abbrev Position := List Step

/-- How a position is written. -/
def Position.pointer (position : Position) : String :=
  position.foldl (fun pointer step => pointer ++ "/" ++ step.text) "#"

/-- The part of a value to which a step leads. -/
def part? : Json → Step → Option Json
  | .object members, .key name => Table.get? members name
  | .array items, .item place => items[place]?
  | _, _ => none

/-- The value at a position. -/
def at? (root : Json) (position : Position) : Option Json :=
  position.foldlM part? root

/-- The part of a value that is named by what stands between two slashes: keys are taken literally,
and the places of items are in decimal. -/
def named? (piece : List Char) : Json → Option Json
  | .object members => Table.get? members (String.ofList piece)
  | .array items =>
      ((List.range items.length).find? fun place => (toString place).toList = piece).bind
        fun place => items[place]?
  | _ => none

/-- The value to which a pointer leads. -/
def follow? (root : Json) (pointer : String) : Option Json :=
  match Text.pieces '/' pointer.toList with
  | ['#'] :: pieces => pieces.foldlM (fun value piece => named? piece value) root
  | _ => none

mutual

/-- The objects within a value. -/
def objects : Json → List Members
  | .array items => objectsOfItems items
  | .object members => members :: objectsOfMembers members
  | _ => []

def objectsOfItems : List Json → List Members
  | [] => []
  | item :: rest => objects item ++ objectsOfItems rest

def objectsOfMembers : List (String × Json) → List Members
  | [] => []
  | (_, value) :: rest => objects value ++ objectsOfMembers rest

end

/-- Whether no key within a value has a slash. -/
def IsSlashFree (root : Json) : Prop :=
  ∀ members ∈ root.objects, ∀ key ∈ Table.keys members, '/' ∉ key.toList

theorem objects_subset_of_item {items : List Json} {item : Json} (occurs : item ∈ items) :
    item.objects ⊆ objectsOfItems items := by
  induction items with
  | nil => cases occurs
  | cons first rest ih =>
      rw [objectsOfItems]
      rcases List.mem_cons.mp occurs with rfl | later
      · exact List.subset_append_left _ _
      · exact List.Subset.trans (ih later) (List.subset_append_right _ _)

theorem objects_subset_of_value {members : Members} {value : Json}
    (occurs : value ∈ Table.values members) : value.objects ⊆ objectsOfMembers members := by
  induction members with
  | nil => cases occurs
  | cons entry rest ih =>
      rw [objectsOfMembers]
      rcases List.mem_cons.mp occurs with rfl | later
      · exact List.subset_append_left _ _
      · exact List.Subset.trans (ih later) (List.subset_append_right _ _)

section Steps

variable {root value part : Json} {position : Position} {step : Step}

theorem at?_concat (root : Json) (position : Position) (step : Step) :
    root.at? (position ++ [step]) = (root.at? position).bind fun value => value.part? step := by
  simp [at?, List.foldlM_append]

theorem at?_concat_of_part? (isAt : root.at? position = some value)
    (isPart : value.part? step = some part) : root.at? (position ++ [step]) = some part := by
  rw [at?_concat, isAt]
  exact isPart

theorem exists_of_at?_concat (isAt : root.at? (position ++ [step]) = some part) :
    ∃ value, root.at? position = some value ∧ value.part? step = some part := by
  rw [at?_concat] at isAt
  exact Option.bind_eq_some_iff.mp isAt

theorem exists_of_at?_cons (isAt : root.at? (step :: position) = some part) :
    ∃ value, root.part? step = some value ∧ value.at? position = some part := by
  rw [at?, List.foldlM_cons] at isAt
  exact Option.bind_eq_some_iff.mp isAt

theorem DistinctKeys.part? (distinct : value.DistinctKeys)
    (isPart : value.part? step = some part) : part.DistinctKeys := by
  cases distinct with
  | object nodup each =>
      cases step with
      | key name => exact each part (Table.mem_values_of_get? isPart)
      | item place => cases isPart
  | array each =>
      cases step with
      | key name => cases isPart
      | item place => exact each part (List.mem_of_getElem? isPart)
  | _ => cases isPart

theorem DistinctKeys.at? (distinct : root.DistinctKeys) (isAt : root.at? position = some part) :
    part.DistinctKeys := by
  induction position using List.reverseRecOn generalizing part with
  | nil =>
      cases isAt
      exact distinct
  | append_singleton position step ih =>
      obtain ⟨value, isAt, isPart⟩ := exists_of_at?_concat isAt
      exact (ih isAt).part? isPart

theorem objects_subset_of_part? (isPart : value.part? step = some part) :
    part.objects ⊆ value.objects := by
  cases value with
  | object members =>
      cases step with
      | key name =>
          have isValue := Table.mem_values_of_get? isPart
          exact List.Subset.trans (objects_subset_of_value isValue) (List.subset_cons_self _ _)
      | item place => cases isPart
  | array items =>
      cases step with
      | key name => cases isPart
      | item place => exact objects_subset_of_item (List.mem_of_getElem? isPart)
  | _ => cases isPart

theorem objects_subset_of_at? (isAt : root.at? position = some part) :
    part.objects ⊆ root.objects := by
  induction position using List.reverseRecOn generalizing part with
  | nil =>
      cases isAt
      exact List.Subset.refl _
  | append_singleton position step ih =>
      obtain ⟨value, isAt, isPart⟩ := exists_of_at?_concat isAt
      exact List.Subset.trans (objects_subset_of_part? isPart) (ih isAt)

/-- An object at a position is within the value. -/
theorem mem_objects_of_at? {members : Members}
    (isAt : root.at? position = some (.object members)) : members ∈ root.objects :=
  objects_subset_of_at? isAt List.mem_cons_self

theorem Position.pointer_concat (position : Position) (step : Step) :
    Position.pointer (position ++ [step]) = position.pointer ++ "/" ++ step.text := by
  simp [Position.pointer]

/-! ## Following pointers -/

theorem find?_toString {place count : Nat} (inside : place < count) :
    (List.range count).find? (fun other => (toString other).toList = (toString place).toList) =
      some place := by
  cases found : (List.range count).find? fun other =>
      (toString other).toList = (toString place).toList with
  | none => simpa using List.find?_eq_none.mp found place (List.mem_range.mpr inside)
  | some other =>
      have same : (toString other).toList = (toString place).toList := by
        simpa using List.find?_some found
      rw [Nat.repr_injective (String.toList_inj.mp same)]

/-- A step to a part of a value is named by the text in which it is written. -/
theorem named?_text (isPart : value.part? step = some part) :
    named? step.text.toList value = some part := by
  cases value with
  | object members =>
      cases step with
      | key name =>
          rw [named?, Step.text, String.ofList_toList]
          exact isPart
      | item place => cases isPart
  | array items =>
      cases step with
      | key name => cases isPart
      | item place =>
          have inside : place < items.length := (List.getElem?_eq_some_iff.mp isPart).1
          rw [named?, Step.text, find?_toString inside]
          exact isPart
  | _ => cases isPart

/-- The steps to a value have no slash. -/
theorem IsSlashFree.notMem (free : root.IsSlashFree) (isAt : root.at? position = some part) :
    ∀ step ∈ position, '/' ∉ step.text.toList := by
  induction position using List.reverseRecOn generalizing part with
  | nil => simp
  | append_singleton position step ih =>
      obtain ⟨value, isAt, isPart⟩ := exists_of_at?_concat isAt
      rw [List.forall_mem_append, List.forall_mem_singleton]
      refine ⟨ih isAt, ?_⟩
      cases step with
      | item place => exact Text.notMem_toString rfl place
      | key name =>
          cases value with
          | object members =>
              have isKey : name ∈ Table.keys members := by
                by_contra unknown
                cases (Table.get?_eq_none_iff.mpr unknown).symm.trans isPart
              exact free members (mem_objects_of_at? isAt) name isKey
          | _ => cases isPart

theorem pieces_pointer (noSlash : ∀ step ∈ position, '/' ∉ step.text.toList) :
    Text.pieces '/' position.pointer.toList =
      ['#'] :: (position.map Step.text).map String.toList := by
  induction position using List.reverseRecOn with
  | nil => decide
  | append_singleton position step ih =>
      rw [List.forall_mem_append, List.forall_mem_singleton] at noSlash
      rw [Position.pointer_concat, Text.pieces_path _ noSlash.2, ih noSlash.1]
      simp

/-- The pointer to a value leads to it. -/
theorem IsSlashFree.follow?_pointer (free : root.IsSlashFree)
    (isAt : root.at? position = some part) : root.follow? position.pointer = some part := by
  rw [follow?, pieces_pointer (free.notMem isAt)]
  change ((position.map Step.text).map String.toList).foldlM _ root = _
  clear free
  induction position generalizing root with
  | nil => exact isAt
  | cons step rest ih =>
      obtain ⟨value, isPart, isAt⟩ := exists_of_at?_cons isAt
      rw [List.map_cons, List.map_cons, List.foldlM_cons, named?_text isPart]
      exact ih isAt

theorem step_eq_of_text_eq {other : Step} {otherPart : Json} (isPart : value.part? step = some part)
    (isPartToo : value.part? other = some otherPart) (same : step.text = other.text) :
    step = other := by
  cases value with
  | object members =>
      cases step <;> cases other
      case key.key => exact congrArg Step.key same
      all_goals contradiction
  | array items =>
      cases step <;> cases other
      case item.item => exact congrArg Step.item (Nat.repr_injective same)
      all_goals contradiction
  | _ => cases isPart

theorem eq_of_texts_eq {other : Position} {otherPart : Json} (isAt : root.at? position = some part)
    (isAtToo : root.at? other = some otherPart)
    (same : position.map Step.text = other.map Step.text) : position = other := by
  induction position generalizing root other with
  | nil => exact (List.map_eq_nil_iff.mp same.symm).symm
  | cons step rest ih =>
      cases other with
      | nil => cases same
      | cons otherStep otherRest =>
          obtain ⟨sameText, sameTexts⟩ := List.cons.inj same
          obtain ⟨value, isPart, isAt⟩ := exists_of_at?_cons isAt
          obtain ⟨otherValue, isPartToo, isAtToo⟩ := exists_of_at?_cons isAtToo
          obtain rfl := step_eq_of_text_eq isPart isPartToo sameText
          obtain rfl := Option.some.inj (isPart.symm.trans isPartToo)
          rw [ih isAt isAtToo sameTexts]

/-- Different positions are written differently. -/
theorem IsSlashFree.eq_of_pointer_eq (free : root.IsSlashFree) {other : Position}
    {otherPart : Json} (isAt : root.at? position = some part)
    (isAtToo : root.at? other = some otherPart) (same : position.pointer = other.pointer) :
    position = other := by
  have pieces : Text.pieces '/' position.pointer.toList = Text.pieces '/' other.pointer.toList := by
    rw [same]
  rw [pieces_pointer (free.notMem isAt), pieces_pointer (free.notMem isAtToo)] at pieces
  have injective : Function.Injective String.toList := fun _ _ => String.toList_injective
  have sameTexts := List.map_injective_iff.mpr injective (List.cons.inj pieces).2
  exact eq_of_texts_eq isAt isAtToo sameTexts

end Steps

end Json

end Typeloom
