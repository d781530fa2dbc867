import Mathlib.Data.List.Forall2
import Mathlib.Data.List.Nodup
import Typeloom.Proofs.Json.Readable
import Typeloom.Proofs.Python.Literals

/-!
# Literals that are read back

A literal is evaluated to the value that it was written for if and only if all texts within the
value, keys included, stay within the basic plane and all its binary numbers are finite.  A
character of another plane is read back as the two halves of a surrogate pair, and numbers that are
not finite are written as names that stand for nothing.
-/

namespace Typeloom

namespace Json

mutual

/-- All texts within a value, the keys of its objects included. -/
def texts : Json → List String
  | .text value => [value]
  | .array items => itemTexts items
  | .object members => Table.keys members ++ memberTexts members
  | _ => []

def itemTexts : List Json → List String
  | [] => []
  | item :: rest => texts item ++ itemTexts rest

/-- All texts within the values of members. -/
def memberTexts : List (String × Json) → List String
  | [] => []
  | (_, value) :: rest => texts value ++ memberTexts rest

end

end Json

namespace Python

mutual

/-- A JSON value as it is held in memory. -/
def Value.ofJson : Json → Value
  | .null => .none
  | .bool value => .bool value
  | .integer value => .int value
  | .number value => .float value
  | .text value => .str (codes value.toList)
  | .array items => .list (ofItems items)
  | .object members => .dict (ofMembers members)

def ofItems : List Json → List Value
  | [] => []
  | item :: rest => Value.ofJson item :: ofItems rest

def ofMembers : List (String × Json) → List (List Nat × Value)
  | [] => []
  | (key, value) :: rest => (codes key.toList, Value.ofJson value) :: ofMembers rest

end

/-- Whether all characters of a text belong to the basic plane. -/
def IsBasic (text : String) : Prop :=
  ∀ character ∈ text.toList, character.toNat ≤ 0xFFFF

instance (text : String) : Decidable (IsBasic text) :=
  List.decidableBAll (fun character : Char => character.toNat ≤ 0xFFFF) text.toList

theorem isBasic_of_codes {text other : String} (same : codes text.toList = units other) :
    IsBasic text := by
  intro character occurs
  have isCode : character.toNat ∈ units other := same ▸ List.mem_map_of_mem occurs
  obtain ⟨source, -, isUnit⟩ := List.mem_flatMap.mp isCode
  exact Nat.le_of_lt_succ (unitsOf_lt source _ isUnit)

theorem units_of_isBasic {text : String} (basic : IsBasic text) :
    units text = codes text.toList := by
  have each : ∀ character ∈ text.toList, unitsOf character = [character.toNat] :=
    fun character occurs => unitsOf_of_lt (Nat.lt_succ_of_le (basic character occurs))
  rw [units, codes, List.map_eq_flatMap]
  exact List.flatMap_congr each

theorem units_eq_codes_iff {text : String} : units text = codes text.toList ↔ IsBasic text :=
  ⟨fun same => isBasic_of_codes same.symm, units_of_isBasic⟩

theorem codes_injective {left right : String} (same : codes left.toList = codes right.toList) :
    left = right :=
  String.toList_inj.mp (List.map_injective_iff.mpr (fun _ _ => Char.toNat_inj.mp) same)

/-! ## Equality -/

theorem equal_str_iff {left right : List Nat} :
    (Value.str left).Equal (.str right) ↔ left = right := by
  constructor
  · intro equal
    cases equal
    rfl
  · rintro rfl
    exact .str left

theorem equal_list_iff {left right : List Value} :
    (Value.list left).Equal (.list right) ↔ List.Forall₂ Value.Equal left right := by
  constructor
  · intro equal
    cases equal with
    | list each => exact each
  · exact .list

theorem equal_float_of_isFinite {number : Binary64} (finite : number.isFinite) :
    (Value.float number).Equal (.float number) := by
  refine .float ?_ (by simp [Binary64.sameValue])
  rintro rfl
  cases finite

/-! ## Dictionaries -/

theorem keys_memberValues? {members : List (String × Json)} {values : List (List Nat × Value)}
    (areValues : memberValues? members = some values) :
    Table.keys values = (Table.keys members).map units := by
  induction members generalizing values with
  | nil =>
      cases areValues
      rfl
  | cons member members ih =>
      obtain ⟨key, value⟩ := member
      obtain ⟨first, -, others⟩ := Option.bind_eq_some_iff.mp areValues
      obtain ⟨more, areMore, rfl⟩ := Option.map_eq_some_iff.mp others
      exact congrArg (units key :: ·) (ih areMore)

theorem keys_ofMembers (members : List (String × Json)) :
    Table.keys (ofMembers members) = (Table.keys members).map fun key => codes key.toList := by
  induction members with
  | nil => rfl
  | cons member members ih => exact congrArg (codes member.1.toList :: ·) ih

/-- Two tables with the same keys are related value by value if and only if what they have under
each key is related. -/
theorem forall₂_iff_get? {Key Value : Type} [DecidableEq Key] {relation : Value → Value → Prop}
    {left right : Table Key Value} (sameKeys : Table.keys left = Table.keys right)
    (distinct : (Table.keys left).Nodup) :
    List.Forall₂ (fun first second => relation first.2 second.2) left right ↔
      ∀ key first second, Table.get? left key = some first → Table.get? right key = some second →
        relation first second := by
  induction left generalizing right with
  | nil =>
      cases right with
      | nil => simp [Table.get?]
      | cons => cases sameKeys
  | cons entry left ih =>
      obtain ⟨key, value⟩ := entry
      cases right with
      | nil => cases sameKeys
      | cons entry right =>
          obtain ⟨key', other⟩ := entry
          obtain ⟨rfl, sameRest⟩ : key = key' ∧ Table.keys left = Table.keys right := by
            simpa [Table.keys] using sameKeys
          obtain ⟨unknown, distinctRest⟩ := List.nodup_cons.mp distinct
          have notLeft : Table.get? left key = none := Table.get?_eq_none_iff.mpr unknown
          rw [List.forall₂_cons, ih sameRest distinctRest]
          constructor
          · rintro ⟨head, tail⟩ searched first second isFirst isSecond
            by_cases same : searched = key
            · subst same
              rw [Table.get?_cons_self] at isFirst isSecond
              cases isFirst
              cases isSecond
              exact head
            · rw [Table.get?_cons_of_ne (Ne.symm same)] at isFirst isSecond
              exact tail searched first second isFirst isSecond
          · intro all
            refine ⟨all key value other Table.get?_cons_self Table.get?_cons_self,
              fun searched first second isFirst isSecond => ?_⟩
            have differs : searched ≠ key := by
              rintro rfl
              rw [notLeft] at isFirst
              cases isFirst
            rw [← Table.get?_cons_of_ne (Ne.symm differs)] at isFirst isSecond
            exact all searched first second isFirst isSecond

theorem equal_dict_iff {members : Json.Members} {values : List (List Nat × Value)}
    (distinct : (Table.keys members).Nodup) (areValues : memberValues? members = some values) :
    (Value.dict (Table.ofPairs values)).Equal (.dict (ofMembers members)) ↔
      (∀ key ∈ Table.keys members, IsBasic key) ∧
        List.Forall₂ (fun first second => first.2.Equal second.2) values (ofMembers members) := by
  have whenBasic (basic : ∀ key ∈ Table.keys members, IsBasic key) :
      Table.keys values = Table.keys (ofMembers members) ∧ (Table.keys values).Nodup := by
    have sameKeys : Table.keys values = Table.keys (ofMembers members) := by
      rw [keys_memberValues? areValues, keys_ofMembers]
      exact List.map_congr_left fun key isKey => units_of_isBasic (basic key isKey)
    refine ⟨sameKeys, ?_⟩
    rw [sameKeys, keys_ofMembers]
    exact distinct.map fun _ _ same => codes_injective same
  constructor
  · intro equal
    cases equal with
    | dict keys each =>
        have basic : ∀ key ∈ Table.keys members, IsBasic key := by
          intro key isKey
          have isCodes : codes key.toList ∈ Table.keys (ofMembers members) := by
            rw [keys_ofMembers]
            exact List.mem_map_of_mem isKey
          have isUnits := Table.mem_keys_ofPairs.mp ((keys _).mpr isCodes)
          rw [keys_memberValues? areValues] at isUnits
          obtain ⟨other, -, same⟩ := List.mem_map.mp isUnits
          exact isBasic_of_codes same.symm
        obtain ⟨sameKeys, distinctValues⟩ := whenBasic basic
        rw [Table.ofPairs_of_nodup distinctValues] at each
        exact ⟨basic, (forall₂_iff_get? sameKeys distinctValues).mpr each⟩
  · rintro ⟨basic, related⟩
    obtain ⟨sameKeys, distinctValues⟩ := whenBasic basic
    rw [Table.ofPairs_of_nodup distinctValues]
    exact .dict (fun key => by rw [sameKeys])
      ((forall₂_iff_get? sameKeys distinctValues).mp related)

/-! ## Literals -/

theorem exists_forall₂_cons_iff {First Other Related : Type} {relation : Other → Related → Prop}
    {combine : First → Other} {first? : Option First} {rest? : Option (List Other)}
    {related : Related} {others : List Related} :
    (∃ results, (first?.bind fun first => rest?.map (combine first :: ·)) = some results ∧
        List.Forall₂ relation results (related :: others)) ↔
      (∃ first, first? = some first ∧ relation (combine first) related) ∧
        ∃ rest, rest? = some rest ∧ List.Forall₂ relation rest others := by
  cases first? <;> cases rest? <;> simp

mutual

theorem equal_literalValue?_iff : (value : Json) → value.DistinctKeys →
    ((∃ result, literalValue? value = some result ∧ result.Equal (.ofJson value)) ↔
      (∀ text ∈ value.texts, IsBasic text) ∧ ∀ number ∈ value.numbers, number.isFinite)
  | .null, _ => iff_of_true ⟨_, rfl, .none⟩ (by simp [Json.texts, Json.numbers])
  | .bool value, _ => iff_of_true ⟨_, rfl, .bool value⟩ (by simp [Json.texts, Json.numbers])
  | .integer value, _ => iff_of_true ⟨_, rfl, .int value⟩ (by simp [Json.texts, Json.numbers])
  | .number value, _ => by
      by_cases finite : value.isFinite
      · exact iff_of_true ⟨_, if_pos finite, equal_float_of_isFinite finite⟩
          (by simpa [Json.texts, Json.numbers] using finite)
      · simp [literalValue?, Json.numbers, finite]
  | .text value, _ => by
      simp [literalValue?, Value.ofJson, Json.texts, Json.numbers, equal_str_iff,
        units_eq_codes_iff]
  | .array items, distinct => by
      have each : ∀ item ∈ items, item.DistinctKeys := by
        cases distinct with
        | array each => exact each
      have read := equal_itemValues?_iff items each
      simpa [literalValue?, Value.ofJson, Json.texts, Json.numbers, equal_list_iff] using read
  | .object members, distinct => by
      obtain ⟨distinctKeys, each⟩ : (Table.keys members).Nodup ∧
          ∀ value ∈ Table.values members, value.DistinctKeys := by
        cases distinct with
        | object distinctKeys each => exact ⟨distinctKeys, each⟩
      have read := equal_memberValues?_iff members each
      have asMembers : (∃ result, literalValue? (.object members) = some result ∧
            result.Equal (.ofJson (.object members))) ↔
          ∃ values, memberValues? members = some values ∧
            (Value.dict (Table.ofPairs values)).Equal (.dict (ofMembers members)) := by
        simp [literalValue?, Value.ofJson]
      have asTexts : (∃ values, memberValues? members = some values ∧
            (Value.dict (Table.ofPairs values)).Equal (.dict (ofMembers members))) ↔
          (∀ key ∈ Table.keys members, IsBasic key) ∧
            ∃ values, memberValues? members = some values ∧
              List.Forall₂ (fun first second => first.2.Equal second.2) values
                (ofMembers members) := by
        rw [← exists_and_left]
        refine exists_congr fun values => ?_
        rw [and_left_comm]
        exact and_congr_right (equal_dict_iff distinctKeys)
      rw [asMembers, asTexts, read, ← and_assoc, ← List.forall_mem_append]
      rfl

theorem equal_itemValues?_iff : (items : List Json) → (∀ item ∈ items, item.DistinctKeys) →
    ((∃ results, itemValues? items = some results ∧
        List.Forall₂ Value.Equal results (ofItems items)) ↔
      (∀ text ∈ Json.itemTexts items, IsBasic text) ∧
        ∀ number ∈ Json.itemNumbers items, number.isFinite)
  | [], _ => iff_of_true ⟨[], rfl, .nil⟩ (by simp [Json.itemTexts, Json.itemNumbers])
  | item :: rest, distinct => by
      have first := equal_literalValue?_iff item (distinct item List.mem_cons_self)
      have others := equal_itemValues?_iff rest fun item occurs =>
        distinct item (List.mem_cons_of_mem _ occurs)
      rw [itemValues?, ofItems, exists_forall₂_cons_iff, first, others, and_and_and_comm,
        ← List.forall_mem_append, ← List.forall_mem_append]
      rfl

theorem equal_memberValues?_iff : (members : List (String × Json)) →
    (∀ value ∈ Table.values members, value.DistinctKeys) →
    ((∃ results, memberValues? members = some results ∧
        List.Forall₂ (fun first second => first.2.Equal second.2) results (ofMembers members)) ↔
      (∀ text ∈ Json.memberTexts members, IsBasic text) ∧
        ∀ number ∈ Json.memberNumbers members, number.isFinite)
  | [], _ => iff_of_true ⟨[], rfl, .nil⟩ (by simp [Json.memberTexts, Json.memberNumbers])
  | (key, value) :: rest, distinct => by
      have first := equal_literalValue?_iff value (distinct value List.mem_cons_self)
      have others := equal_memberValues?_iff rest fun value occurs =>
        distinct value (List.mem_cons_of_mem _ occurs)
      rw [memberValues?, ofMembers, exists_forall₂_cons_iff, first, others, and_and_and_comm,
        ← List.forall_mem_append, ← List.forall_mem_append]
      rfl

end

def half : Binary64 :=
  .finite false 4503599627370496 (-53)

theorem readsBack_half : ReadsBack half := by
  have written : Number.writeBinary "inf" "nan" half = "0.5" := by
    decide +kernel
  have nearest : Binary64.ofDecimal false 5 1 (-1) = half := by
    decide +kernel
  have isValue : numeralValue? ['0', '.', '5'] = some (.float half) := by
    rw [← nearest]
    rfl
  have isNumeral : tokens? "0.5".toList = some [.numeral (.float half)] := by
    refine tokens?_single rfl ?_
    rw [tokenAt?_of_isDigit rfl]
    exact congrArg (Option.map _) isValue
  rw [ReadsBack, written, evaluate_of_notMem (by decide) (by decide), isNumeral]
  rfl

def halfDressed : Json :=
  .object [("h\"é", .array [.number half, .integer (-7), .null])]

def smiling : Json :=
  .array [.text "\u263a", .text (String.singleton (Char.ofNat 0x1F600))]

theorem distinctKeys_halfDressed : halfDressed.DistinctKeys := by
  refine .object (by decide) (List.forall_mem_singleton.mpr (.array ?_))
  intro item occurs
  simp only [List.mem_cons, List.not_mem_nil, or_false] at occurs
  rcases occurs with rfl | rfl | rfl
  · exact .number half
  · exact .integer (-7)
  · exact .null

theorem distinctKeys_smiling : smiling.DistinctKeys := by
  refine .array fun item occurs => ?_
  simp only [List.mem_cons, List.not_mem_nil, or_false] at occurs
  rcases occurs with rfl | rfl <;> exact .text _

end Python

end Typeloom
