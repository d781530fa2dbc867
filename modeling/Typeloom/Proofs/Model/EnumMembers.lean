import Mathlib.Data.List.Induction
import Mathlib.Data.List.Nodup
import Std.Data.String.ToNat
import Typeloom.Proofs.Model.Ensures
import Typeloom.Proofs.Schema.Shape

/-!
# Members of enums

Every value of an enum wants a name, which the schema gives it or which is derived from the value.
If the name is taken already, the number of the members is put behind it, and whatever has that
name then loses its value.  All values are kept unless a name that gets a number behind it is then
the one that an earlier value wanted.
-/

namespace Typeloom

namespace Analysis

open Reporting

/-! ## Names for values -/

/-- The name that a value wants: the one that is given for it, or else the derived one. -/
def wantedName (names : Json.Members) (value : Json) : String :=
  match Json.memberOrNull names value.inMessage with
  | .text given => if given.isEmpty then derivedMemberName value else given
  | _ => derivedMemberName value

/-- A name with a number behind it. -/
def numbered (name : String) (number : Nat) : String :=
  name ++ "_" ++ toString number

/-- The name for what wants a name when some are taken. -/
def nameAfter (taken : List String) (wanted : String) : String :=
  if wanted ∈ taken then numbered wanted taken.length else wanted

/-- The names that are assigned one after the other for the names that are wanted. -/
def assigned (wanted : List String) : List String :=
  wanted.foldl (fun taken name => taken ++ [nameAfter taken name]) []

/-- Whether a name that is wanted is taken, and the number that it gets makes it the name that was
wanted by an earlier one. -/
def NumberWanted (wanted : List String) : Prop :=
  ∃ before name after, wanted = before ++ name :: after ∧ name ∈ assigned before ∧
    numbered name before.length ∈ before

/-- What stands behind the last mark of a text is the same in the same text. -/
theorem eq_of_append_mark_eq {mark : Char} {before other first second : List Char}
    (notFirst : mark ∉ first) (notSecond : mark ∉ second)
    (same : before ++ mark :: first = other ++ mark :: second) : first = second := by
  rcases List.append_eq_append_iff.mp same with ⟨between, -, rest⟩ | ⟨between, -, rest⟩
  · cases between with
    | nil => exact (List.cons.inj rest).2
    | cons head more =>
        have isFirst := (List.cons.inj rest).2
        exact absurd (by simp [isFirst]) notFirst
  · cases between with
    | nil => exact (List.cons.inj rest).2.symm
    | cons head more =>
        have isSecond := (List.cons.inj rest).2
        exact absurd (by simp [isSecond]) notSecond

/-- Names with numbers behind them are the same only if the numbers are. -/
theorem number_eq_of_numbered_eq {name other : String} {first second : Nat}
    (same : numbered name first = numbered other second) : first = second := by
  have ofLists : name.toList ++ '_' :: (toString first).toList =
      other.toList ++ '_' :: (toString second).toList := by
    simpa [numbered] using congrArg String.toList same
  have sameDigits := eq_of_append_mark_eq (Text.notMem_toString rfl first)
    (Text.notMem_toString rfl second) ofLists
  exact Nat.repr_injective (String.toList_inj.mp sameDigits)

section Assigned

variable {before : List String} {name : String}

theorem assigned_append_singleton (before : List String) (name : String) :
    assigned (before ++ [name]) = assigned before ++ [nameAfter (assigned before) name] := by
  simp [assigned]

theorem length_assigned (wanted : List String) : (assigned wanted).length = wanted.length := by
  induction wanted using List.reverseRecOn with
  | nil => rfl
  | append_singleton before name ih => simp [assigned_append_singleton, ih]

/-- A name that is wanted is assigned, to what wants it or to something before. -/
theorem mem_assigned_of_mem {wanted : List String} (occurs : name ∈ wanted) :
    name ∈ assigned wanted := by
  induction wanted using List.reverseRecOn with
  | nil => cases occurs
  | append_singleton before last ih =>
      rw [assigned_append_singleton, List.mem_append, List.mem_singleton]
      rcases List.mem_append.mp occurs with earlier | isLast
      · exact Or.inl (ih earlier)
      · obtain rfl := List.mem_singleton.mp isLast
        rw [nameAfter]
        split
        · exact Or.inl ‹_›
        · exact Or.inr rfl

/-- A name that is assigned is wanted or has a number behind it that is small enough. -/
theorem of_mem_assigned {wanted : List String} (occurs : name ∈ assigned wanted) :
    name ∈ wanted ∨ ∃ other number, number < wanted.length ∧ name = numbered other number := by
  induction wanted using List.reverseRecOn with
  | nil => cases occurs
  | append_singleton before last ih =>
      rw [assigned_append_singleton, List.mem_append, List.mem_singleton] at occurs
      rw [List.mem_append, List.mem_singleton, List.length_append, List.length_singleton]
      rcases occurs with earlier | rfl
      · rcases ih earlier with isWanted | ⟨other, number, isSmall, rfl⟩
        · exact Or.inl (Or.inl isWanted)
        · exact Or.inr ⟨other, number, by omega, rfl⟩
      · rw [nameAfter, length_assigned]
        split
        · exact Or.inr ⟨last, before.length, by omega, rfl⟩
        · exact Or.inl (Or.inr rfl)

/-- The name that is assigned next is taken just if the wanted one is, and the one with the number
behind it was wanted: no other name has that number. -/
theorem nameAfter_mem_assigned_iff : nameAfter (assigned before) name ∈ assigned before ↔
    name ∈ assigned before ∧ numbered name before.length ∈ before := by
  rw [nameAfter, length_assigned]
  split
  · rename_i isTaken
    rw [and_iff_right isTaken]
    refine ⟨fun occurs => (of_mem_assigned occurs).resolve_right ?_, mem_assigned_of_mem⟩
    rintro ⟨other, number, isSmall, same⟩
    have := number_eq_of_numbered_eq same
    omega
  · rename_i isFree
    simp [isFree]

theorem numberWanted_append_singleton_iff :
    NumberWanted (before ++ [name]) ↔ NumberWanted before ∨
      name ∈ assigned before ∧ numbered name before.length ∈ before := by
  constructor
  · rintro ⟨start, wanted, after, isSplit, occurs⟩
    rcases List.eq_nil_or_concat after with rfl | ⟨rest, last, rfl⟩
    · obtain ⟨rfl, isLast⟩ := List.append_inj' isSplit rfl
      obtain rfl := List.singleton_inj.mp isLast
      exact Or.inr occurs
    · rw [List.concat_eq_append, ← List.cons_append, ← List.append_assoc] at isSplit
      obtain ⟨rfl, -⟩ := List.append_inj' isSplit rfl
      exact Or.inl ⟨start, wanted, rest, rfl, occurs⟩
  · rintro (⟨start, wanted, after, rfl, occurs⟩ | occurs)
    · exact ⟨start, wanted, after ++ [name], by simp, occurs⟩
    · exact ⟨before, name, [], rfl, occurs⟩

/-- The assigned names are all different unless a number makes one of them a wanted one. -/
theorem nodup_assigned_iff (wanted : List String) :
    (assigned wanted).Nodup ↔ ¬NumberWanted wanted := by
  induction wanted using List.reverseRecOn with
  | nil => simp [assigned, NumberWanted]
  | append_singleton before name ih =>
      rw [assigned_append_singleton, numberWanted_append_singleton_iff, not_or, ← ih,
        ← nameAfter_mem_assigned_iff, List.nodup_append_comm, List.singleton_append,
        List.nodup_cons, and_comm]

end Assigned

/-! ## The members of an enum -/

section Members

variable {names : Json.Members}

theorem memberName_eq (areTexts : ∀ entry ∈ names, entry.2.IsText) (value : Json) :
    memberName (.object names) value = .ok (.text (wantedName names value)) := by
  change (if (Json.memberOrNull names value.inMessage).isTruthy then
    (Json.memberOrNull names value.inMessage).asKey else
    .ok (.text (derivedMemberName value))) = _
  rw [wantedName]
  cases found : Table.get? names value.inMessage with
  | none => simp [Json.memberOrNull, found, Json.isTruthy]
  | some given =>
      obtain ⟨entry, isEntry, rfl⟩ := List.mem_map.mp (Table.mem_values_of_get? found)
      obtain ⟨content, isText⟩ := areTexts entry isEntry
      cases isEmpty : content.isEmpty <;>
        simp [Json.memberOrNull, found, isText, Json.isTruthy, isEmpty, Json.asKey,
          Json.isHashable]

/-- Members whose names are texts. -/
def textNamed (table : Table String Json) : List (Json × Json) :=
  table.map fun entry => (.text entry.1, entry.2)

theorem isText_of_mem_textNamed {table : Table String Json} :
    ∀ member ∈ textNamed table, member.1.IsText := by
  intro member occurs
  obtain ⟨entry, -, rfl⟩ := List.mem_map.mp occurs
  exact ⟨entry.1, rfl⟩

theorem setMember_textNamed (name : String) (value : Json) (table : Table String Json) :
    setMember (.text name) value (textNamed table) = textNamed (Table.set name value table) := by
  induction table with
  | nil => rfl
  | cons entry rest ih =>
      obtain ⟨other, old⟩ := entry
      rw [textNamed, List.map_cons, setMember, Table.set, ← textNamed, ih]
      by_cases same : other = name
      · simp [Json.same, same, textNamed]
      · simp [Json.same, same, textNamed]

theorem any_same_textNamed (name : String) (table : Table String Json) :
    (textNamed table).any (fun member => Json.same member.1 (.text name)) =
      decide (name ∈ Table.keys table) := by
  rw [Bool.eq_iff_iff, decide_eq_true_iff]
  simp [textNamed, Table.keys, Json.same]

/-- The members for values, each set under the name that is assigned to it. -/
def named (names : Json.Members) (values : List Json) : Table String Json :=
  values.foldl (fun table value =>
    Table.set (nameAfter (Table.keys table) (wantedName names value)) value table) []

theorem named_append_singleton (values : List Json) (value : Json) :
    named names (values ++ [value]) = Table.set (nameAfter (Table.keys (named names values))
      (wantedName names value)) value (named names values) := by
  simp [named]

theorem membersOf_eq (areTexts : ∀ entry ∈ names, entry.2.IsText) (values : List Json) :
    membersOf (.object names) values = .ok (textNamed (named names values)) := by
  induction values using List.reverseRecOn with
  | nil => rfl
  | append_singleton values value ih =>
      rw [membersOf] at ih ⊢
      rw [List.foldlM_append, ih, named_append_singleton, ← setMember_textNamed]
      change addMember _ _ _ >>= pure = _
      rw [bind_pure, addMember, memberName_eq areTexts]
      change Except.ok (setMember (if _ then _ else _) _ _) = _
      rw [any_same_textNamed, nameAfter, numbered, textNamed, List.length_map, Table.keys,
        List.length_map]
      simp only [decide_eq_true_eq, Json.inMessage, apply_ite Json.text]

theorem nodup_keys_named (values : List Json) : (Table.keys (named names values)).Nodup := by
  induction values using List.reverseRecOn with
  | nil => exact List.nodup_nil
  | append_singleton values value ih =>
      rw [named_append_singleton]
      exact Table.nodup_keys_set ih

/-- Each value has a member of its own as long as the names that are assigned are all different;
from then on there are fewer members than values. -/
theorem named_eq_or_length_lt (values : List Json) :
    named names values = (assigned (values.map (wantedName names))).zip values ∧
        ¬NumberWanted (values.map (wantedName names)) ∨
      (named names values).length < values.length ∧
        NumberWanted (values.map (wantedName names)) := by
  induction values using List.reverseRecOn with
  | nil => exact Or.inl ⟨rfl, by simp [NumberWanted]⟩
  | append_singleton values value ih =>
      rw [named_append_singleton, List.map_append, List.map_singleton, List.length_append,
        List.length_singleton, numberWanted_append_singleton_iff, ← nameAfter_mem_assigned_iff,
        assigned_append_singleton]
      rcases ih with ⟨isZip, free⟩ | ⟨fewer, isWanted⟩
      · have sameLength : (assigned (values.map (wantedName names))).length = values.length := by
          rw [length_assigned, List.length_map]
        have keys : Table.keys (named names values) = assigned (values.map (wantedName names)) := by
          rw [isZip, Table.keys, List.map_fst_zip (Nat.le_of_eq sameLength)]
        rw [keys]
        by_cases isTaken : nameAfter (assigned (values.map (wantedName names)))
            (wantedName names value) ∈ assigned (values.map (wantedName names))
        · refine Or.inr ⟨?_, Or.inr isTaken⟩
          rw [Table.length_set_of_contains value (by rwa [keys]), isZip, List.length_zip,
            sameLength]
          omega
        · refine Or.inl ⟨?_, not_or.mpr ⟨free, isTaken⟩⟩
          rw [Table.set_of_not_contains value (by rwa [keys]), isZip, List.zip_append sameLength]
          rfl
      · have atMostOne := Table.length_set_le (nameAfter (Table.keys (named names values))
          (wantedName names value)) value (named names values)
        exact Or.inr ⟨by omega, Or.inl isWanted⟩

/-- The names of the members are different texts.  All values are kept in their order unless a name
that gets a number behind it is then the one that an earlier value wanted; in that case there are
fewer members than values. -/
theorem members_of_buildEnum (areTexts : ∀ entry ∈ names, entry.2.IsText)
    (name systemId : String) (package : Json) (info : NodeInfo) (values : List Json)
    (valueType : String) (state : State) (channel : Channel) :
    ∃ members, onChannel ((buildEnum name systemId package info values valueType
        (.object names)).run state) channel =
          (.ok ((), state.withEnum
            { name, package, valueType, members, description := info.description
              source := systemId ++ info.pointer }), channel) ∧
      (members.map Prod.fst).Nodup ∧ (∀ member ∈ members, member.1.IsText) ∧
      (¬NumberWanted (values.map (wantedName names)) → members.map Prod.snd = values) ∧
      (NumberWanted (values.map (wantedName names)) → members.length < values.length) := by
  refine ⟨textNamed (named names values), ?_, ?_, ?_, ?_, ?_⟩
  · rw [buildEnum, membersOf_eq areTexts]
    rfl
  · have areNames : (textNamed (named names values)).map Prod.fst =
        (Table.keys (named names values)).map Json.text := by
      simp [textNamed, Table.keys]
    rw [areNames]
    exact (nodup_keys_named values).map fun _ _ same => Json.text.inj same
  · exact isText_of_mem_textNamed
  · intro free
    have isZip := (named_eq_or_length_lt values).resolve_right fun fewer => free fewer.2
    rw [isZip.1, textNamed, List.map_map]
    exact List.map_snd_zip (by simp [length_assigned])
  · intro isWanted
    have fewer := (named_eq_or_length_lt values).resolve_left fun free => free.2 isWanted
    simpa [textNamed] using fewer.1

end Members

/-- Three texts that want the same name, one of them because the schema gives it that name. -/
theorem members_of_buildEnum_alike :
    (∀ entry ∈ [("b", Json.text "A")], entry.2.IsText) ∧
      ∃ members, onChannel ((buildEnum "Letter" "file:///work/doc.json" (.text "generated")
        { pointer := "#/definitions/Letter" } [.text "a", .text "A", .text "b"] "string"
        (.object [("b", .text "A")])).run {}) {} =
          (.ok ((), State.withEnum {}
            { name := "Letter", package := .text "generated", valueType := "string", members
              description := .null, source := "file:///work/doc.json#/definitions/Letter" }), {}) ∧
        members.map Prod.snd = [.text "a", .text "A", .text "b"] := by
  have areTexts : ∀ entry ∈ [("b", Json.text "A")], entry.2.IsText := by simp [Json.IsText]
  obtain ⟨members, runs, -, -, keeps, -⟩ := members_of_buildEnum areTexts "Letter"
    "file:///work/doc.json" (.text "generated") { pointer := "#/definitions/Letter" }
    [.text "a", .text "A", .text "b"] "string" {} {}
  refine ⟨areTexts, members, runs, keeps ?_⟩
  rw [← nodup_assigned_iff]
  decide +kernel

/-- A number behind a name makes it the name of the first value, which then is lost. -/
theorem members_of_buildEnum_retaken :
    onChannel ((buildEnum "Letter" "file:///work/doc.json" (.text "generated")
      { pointer := "#/definitions/Letter" } [.text "a_2", .text "a", .text "A"] "string"
      (.object [])).run {}) {} =
        (.ok ((), State.withEnum {}
          { name := "Letter", package := .text "generated", valueType := "string"
            members := [(.text "A_2", .text "A"), (.text "A", .text "a")]
            description := .null, source := "file:///work/doc.json#/definitions/Letter" }), {}) ∧
      [(Json.text "A_2", Json.text "A"), (.text "A", .text "a")].map Prod.snd ≠
        [.text "a_2", .text "a", .text "A"] := by
  have areMembers : membersOf (.object []) [.text "a_2", .text "a", .text "A"] =
      .ok [(.text "A_2", .text "A"), (.text "A", .text "a")] := by
    rw [membersOf_eq (by simp)]
    exact congrArg Except.ok (by decide +kernel)
  refine ⟨?_, by decide⟩
  rw [buildEnum, areMembers]
  rfl

end Analysis

end Typeloom
