import Typeloom.Proofs.Python.Scalars
import Typeloom.Render.Python

/-!
# Values of literals

The literal of a JSON value is an expression.  What it is evaluated to is computed from the value
alone: its texts become lists of code units, and infinite numbers and what is not a number have no
value, since they are written as names that stand for nothing.
-/

namespace Typeloom

namespace Python

mutual

/-- The value of the literal of a JSON value, if it has one. -/
def literalValue? : Json → Option Value
  | .null => some .none
  | .bool value => some (.bool value)
  | .integer value => some (.int value)
  | .number value => if value.isFinite then some (.float value) else none
  | .text value => some (.str (units value))
  | .array items => (itemValues? items).map Value.list
  | .object members => (memberValues? members).map fun values => .dict (Table.ofPairs values)

def itemValues? : List Json → Option (List Value)
  | [] => some []
  | item :: rest => (literalValue? item).bind fun value => (itemValues? rest).map (value :: ·)

def memberValues? : List (String × Json) → Option (List (List Nat × Value))
  | [] => some []
  | (key, member) :: rest =>
      (literalValue? member).bind fun value => (memberValues? rest).map ((units key, value) :: ·)

end

/-- Whether a binary number is read back from the numeral with which it is written. -/
def ReadsBack (number : Binary64) : Prop :=
  evaluate (Number.writeBinary "inf" "nan" number) = some (.float number)

/-! ## Spelled values -/

/-- Whether a text is cut into tokens that are read as a value wherever one is expected, or that
are refused there if there is no value.  No bracket is closed by the first token. -/
def Spells (text : List Char) (value? : Option Value) : Prop :=
  ∃ first more, tokens? text = some (first :: more) ∧ first ≠ .symbol ']' ∧
    first ≠ .symbol '\x7d' ∧
    ∀ frames, (first :: more).foldlM Expectation.accept? (.value 0 frames) =
      value?.map fun value => .follower value frames

theorem spells_token {text : List Char} {token : Token} {value? : Option Value}
    (reads : tokens? text = some [token]) (noSymbol : ∀ character, token ≠ .symbol character)
    (begins : ∀ frames, begin? 0 frames token = value?.map fun value => .follower value frames) :
    Spells text value? := by
  refine ⟨token, [], reads, noSymbol _, noSymbol _, fun frames => ?_⟩
  rw [List.foldlM_cons, Expectation.accept?, begins]
  cases value? <;> rfl

theorem spells_writeInteger (value : Int) :
    Spells (Number.writeInteger value).toList (some (.int value)) := by
  rw [Number.writeInteger, String.toList_ofList]
  by_cases negative : value < 0
  · have opposite : -(value.natAbs : Int) = value := by omega
    rw [if_pos negative]
    refine ⟨.symbol '-', [.numeral (.int value.natAbs)], ?_, by simp, by simp, fun frames => ?_⟩
    · rw [tokens?_symbol (by decide), tokens?_decimal]
      rfl
    · have reads : [Token.symbol '-', .numeral (.int value.natAbs)].foldlM
          Expectation.accept? (.value 0 frames) =
            some (.follower (.int (-(value.natAbs : Int))) frames) := rfl
      rw [reads, opposite]
      rfl
  · have same : (value.natAbs : Int) = value := by omega
    rw [if_neg negative]
    refine spells_token (tokens?_decimal _) (by simp) fun frames => ?_
    rw [same]
    rfl

/-- An expression has its value wherever a value is expected. -/
theorem spells_of_evaluate {text : String} {value : Value} (noReturn : '\r' ∉ text.toList)
    (evaluates : evaluate text = some value) : Spells text.toList (some value) := by
  unfold evaluate at evaluates
  rw [Text.unifyLineEnds_of_notMem noReturn] at evaluates
  split at evaluates
  · cases evaluates
  · obtain ⟨tokens, isTokens, reads⟩ := Option.bind_eq_some_iff.mp evaluates
    obtain ⟨last, runs, isResult⟩ := Option.bind_eq_some_iff.mp reads
    obtain rfl : last = .follower value [] := by
      unfold Expectation.result? at isResult
      split at isResult <;> cases isResult
      rfl
    cases tokens with
    | nil => cases runs
    | cons first more =>
        refine ⟨first, more, isTokens, ?_, ?_, fun frames => foldlM_under frames runs⟩
        · rintro rfl
          cases runs
        · rintro rfl
          cases runs

theorem tokens?_infinity : tokens? "inf".toList = some [.name "inf".toList] :=
  tokens?_single rfl rfl

theorem spells_writeBinary {number : Binary64} (readsBack : number.isFinite → ReadsBack number) :
    Spells (Number.writeBinary "inf" "nan" number).toList (literalValue? (.number number)) := by
  cases number with
  | finite negative mantissa exponent =>
      have noReturn := mt (printableText_writeBinary (.finite negative mantissa exponent) '\r')
        (by decide)
      exact spells_of_evaluate noReturn (readsBack rfl)
  | infinite negative =>
      cases negative with
      | false => exact spells_token tokens?_infinity (by simp) fun _ => rfl
      | true =>
          refine ⟨.symbol '-', [.name "inf".toList], ?_, by simp, by simp, fun _ => rfl⟩
          have isSymbol : '-' ∈ symbols := by decide
          have signed := tokens?_symbol isSymbol "inf".toList
          rw [tokens?_infinity] at signed
          exact signed
  | notANumber =>
      have isName : tokens? "nan".toList = some [.name "nan".toList] := tokens?_single rfl rfl
      exact spells_token isName (by simp) fun _ => rfl

/-! ## Lists -/

/-- Whether a text is cut into tokens that are read, with the bracket behind them, as the rest of
a list. -/
def SpellsItems (text : List Char) (values? : Option (List Value)) : Prop :=
  ∃ tokens, tokens? text = some tokens ∧
    ∀ items frames,
      (tokens ++ [Token.symbol ']']).foldlM Expectation.accept? (.item items frames) =
        values?.map fun values => .follower (.list (items.reverse ++ values)) frames

theorem Spells.exists_item {text : List Char} {value? : Option Value}
    (spelled : Spells text value?) : ∃ tokens, tokens? text = some tokens ∧
      ∀ items frames, tokens.foldlM Expectation.accept? (.item items frames) =
        value?.map fun value => .follower value (.list items :: frames) := by
  obtain ⟨first, more, isTokens, noEnd, -, reads⟩ := spelled
  refine ⟨first :: more, isTokens, fun items frames => ?_⟩
  rw [← reads, List.foldlM_cons, List.foldlM_cons, accept?_item noEnd, Expectation.accept?]

theorem spellsItems_nil : SpellsItems [] (some []) := by
  refine ⟨[], by rw [tokens?], fun items frames => ?_⟩
  simp [Expectation.accept?]

theorem spellsItems_singleton {text : List Char} {value? : Option Value}
    (spelled : Spells text value?) : SpellsItems text (value?.bind fun value => some [value]) := by
  obtain ⟨tokens, isTokens, reads⟩ := spelled.exists_item
  refine ⟨tokens, isTokens, fun items frames => ?_⟩
  rw [List.foldlM_append, reads]
  cases value? <;> simp [Expectation.accept?]

theorem spellsItems_cons {text rest : List Char} {value? : Option Value}
    {values? : Option (List Value)} (spelled : Spells text value?)
    (spelledRest : SpellsItems rest values?) :
    SpellsItems (text ++ ',' :: ' ' :: rest)
      (value?.bind fun value => values?.map (value :: ·)) := by
  obtain ⟨tokens, isTokens, reads⟩ := spelled.exists_item
  obtain ⟨others, areOthers, readsOthers⟩ := spelledRest
  refine ⟨_, tokens?_between (by decide) isTokens areOthers, fun items frames => ?_⟩
  rw [List.append_assoc, List.foldlM_append, reads]
  cases value? with
  | none => rfl
  | some value =>
      have goesOn := readsOthers (value :: items) frames
      simpa [Expectation.accept?, Option.map_map, Function.comp_def] using goesOn

theorem spells_list {text : List Char} {values? : Option (List Value)}
    (spelled : SpellsItems text values?) :
    Spells ('[' :: text ++ [']']) (values?.map Value.list) := by
  obtain ⟨tokens, isTokens, reads⟩ := spelled
  refine ⟨.symbol '[', tokens ++ [.symbol ']'], ?_, by simp, by simp, fun frames => ?_⟩
  · rw [List.cons_append, tokens?_symbol (by decide), tokens?_closed (by decide) isTokens]
    rfl
  · have opened := reads [] frames
    rw [Option.map_map]
    exact opened

/-! ## Dictionaries -/

/-- Whether a text is cut into tokens that are read, with the bracket behind them, as the rest of
a dictionary. -/
def SpellsMembers (text : List Char) (values? : Option (List (List Nat × Value))) : Prop :=
  ∃ tokens, tokens? text = some tokens ∧
    ∀ members frames,
      (tokens ++ [Token.symbol '\x7d']).foldlM Expectation.accept? (.member members frames) =
        values?.map fun values => .follower (.dict (values.foldl
          (fun table (pair : List Nat × Value) => Table.set pair.1 pair.2 table) members)) frames

theorem Spells.exists_member {text : List Char} {value? : Option Value}
    (spelled : Spells text value?) (key : String) :
    ∃ tokens, tokens? (Json.writeText key ++ ':' :: ' ' :: text) = some tokens ∧
      ∀ members frames, tokens.foldlM Expectation.accept? (.member members frames) =
        value?.map fun value => .follower value (.member members (units key) :: frames) := by
  obtain ⟨first, more, isTokens, -, -, reads⟩ := spelled
  refine ⟨_, tokens?_between (by decide) (tokens?_writeText key) isTokens,
    fun members frames => ?_⟩
  exact reads (.member members (units key) :: frames)

theorem spellsMembers_nil : SpellsMembers [] (some []) := by
  refine ⟨[], by rw [tokens?], fun members frames => ?_⟩
  simp [Expectation.accept?]

theorem spellsMembers_singleton {text : List Char} {value? : Option Value}
    (spelled : Spells text value?) (key : String) :
    SpellsMembers (Json.writeText key ++ ':' :: ' ' :: text)
      (value?.bind fun value => some [(units key, value)]) := by
  obtain ⟨tokens, isTokens, reads⟩ := spelled.exists_member key
  refine ⟨tokens, isTokens, fun members frames => ?_⟩
  rw [List.foldlM_append, reads]
  cases value? <;> simp [Expectation.accept?]

theorem spellsMembers_cons {text rest : List Char} {value? : Option Value}
    {values? : Option (List (List Nat × Value))} (spelled : Spells text value?) (key : String)
    (spelledRest : SpellsMembers rest values?) :
    SpellsMembers ((Json.writeText key ++ ':' :: ' ' :: text) ++ ',' :: ' ' :: rest)
      (value?.bind fun value => values?.map ((units key, value) :: ·)) := by
  obtain ⟨tokens, isTokens, reads⟩ := spelled.exists_member key
  obtain ⟨others, areOthers, readsOthers⟩ := spelledRest
  refine ⟨_, tokens?_between (by decide) isTokens areOthers, fun members frames => ?_⟩
  rw [List.append_assoc, List.foldlM_append, reads]
  cases value? with
  | none => rfl
  | some value =>
      have goesOn := readsOthers (Table.set (units key) value members) frames
      simpa [Expectation.accept?, Option.map_map, Function.comp_def] using goesOn

theorem spells_dict {text : List Char} {values? : Option (List (List Nat × Value))}
    (spelled : SpellsMembers text values?) :
    Spells ('\x7b' :: text ++ ['\x7d'])
      (values?.map fun values => .dict (Table.ofPairs values)) := by
  obtain ⟨tokens, isTokens, reads⟩ := spelled
  refine ⟨.symbol '\x7b', tokens ++ [.symbol '\x7d'], ?_, by simp, by simp, fun frames => ?_⟩
  · rw [List.cons_append, tokens?_symbol (by decide), tokens?_closed (by decide) isTokens]
    rfl
  · have opened := reads [] frames
    rw [Option.map_map]
    exact opened

/-! ## Literals -/

theorem spells_bool (value : Bool) :
    Spells (if value then "True" else "False").toList (some (.bool value)) := by
  cases value with
  | false =>
      have isName : tokens? "False".toList = some [.name "False".toList] := tokens?_single rfl rfl
      exact spells_token isName (by simp) fun _ => rfl
  | true =>
      have isName : tokens? "True".toList = some [.name "True".toList] := tokens?_single rfl rfl
      exact spells_token isName (by simp) fun _ => rfl

theorem toList_quote (content : String) : (Json.quote content).toList = Json.writeText content :=
  String.toList_ofList

mutual

theorem spells_literal : (value : Json) →
    (∀ number ∈ value.numbers, number.isFinite → ReadsBack number) →
      Spells (literal value).toList (literalValue? value)
  | .null, _ => by
      have isName : tokens? "None".toList = some [.name "None".toList] := tokens?_single rfl rfl
      exact spells_token isName (by simp) fun _ => rfl
  | .bool value, _ => spells_bool value
  | .integer value, _ => spells_writeInteger value
  | .number value, readsBack => spells_writeBinary (readsBack value (List.mem_singleton_self value))
  | .text value, _ => by
      rw [literal, toList_quote]
      exact spells_token (tokens?_writeText value) (by simp) fun _ => rfl
  | .array items, readsBack => by
      have spelled := spells_list (spellsItems_literalItems items readsBack)
      rw [literal, String.toList_append, String.toList_append]
      exact spelled
  | .object members, readsBack => by
      have spelled := spells_dict (spellsMembers_literalMembers members readsBack)
      rw [literal, String.toList_append, String.toList_append]
      exact spelled

theorem spellsItems_literalItems : (items : List Json) →
    (∀ number ∈ Json.itemNumbers items, number.isFinite → ReadsBack number) →
      SpellsItems (literalItems items).toList (itemValues? items)
  | [], _ => spellsItems_nil
  | [item], readsBack => by
      have spelled := spells_literal item fun number occurs =>
        readsBack number (List.mem_append_left _ occurs)
      exact spellsItems_singleton spelled
  | item :: next :: rest, readsBack => by
      have spelled := spells_literal item fun number occurs =>
        readsBack number (List.mem_append_left _ occurs)
      have spelledRest := spellsItems_literalItems (next :: rest) fun number occurs =>
        readsBack number (List.mem_append_right _ occurs)
      rw [literalItems, String.toList_append, String.toList_append, List.append_assoc]
      exact spellsItems_cons spelled spelledRest

theorem spellsMembers_literalMembers : (members : List (String × Json)) →
    (∀ number ∈ Json.memberNumbers members, number.isFinite → ReadsBack number) →
      SpellsMembers (literalMembers members).toList (memberValues? members)
  | [], _ => spellsMembers_nil
  | [(key, value)], readsBack => by
      have spelled := spells_literal value fun number occurs =>
        readsBack number (List.mem_append_left _ occurs)
      have written : (literalMembers [(key, value)]).toList =
          Json.writeText key ++ ':' :: ' ' :: (literal value).toList := by
        simp [literalMembers, toList_quote]
      rw [written]
      exact spellsMembers_singleton spelled key
  | (key, value) :: next :: rest, readsBack => by
      have spelled := spells_literal value fun number occurs =>
        readsBack number (List.mem_append_left _ occurs)
      have spelledRest := spellsMembers_literalMembers (next :: rest) fun number occurs =>
        readsBack number (List.mem_append_right _ occurs)
      have written : (literalMembers ((key, value) :: next :: rest)).toList =
          (Json.writeText key ++ ':' :: ' ' :: (literal value).toList) ++
            ',' :: ' ' :: (literalMembers (next :: rest)).toList := by
        simp [literalMembers, toList_quote]
      rw [written]
      exact spellsMembers_cons spelled key spelledRest

end

/-! ## Printable characters -/

theorem PrintableText.append_toList {first second : String} (printable : PrintableText first.toList)
    (printableSecond : PrintableText second.toList) : PrintableText (first ++ second).toList := by
  rw [String.toList_append]
  exact printable.append printableSecond

theorem printableText_quote (content : String) : PrintableText (Json.quote content).toList := by
  rw [toList_quote]
  exact printableText_writeText content

theorem printableText_comma : PrintableText ", ".toList := by
  decide

theorem printableText_colon : PrintableText ": ".toList := by
  decide

mutual

/-- A literal consists of printable ASCII characters. -/
theorem printableText_literal : (value : Json) → PrintableText (literal value).toList
  | .null => by decide
  | .bool value => by cases value <;> decide
  | .integer value => printableText_writeInteger value
  | .number value => printableText_writeBinary value
  | .text value => printableText_quote value
  | .array items =>
      have brackets : PrintableText "[".toList ∧ PrintableText "]".toList := by decide
      (brackets.1.append_toList (printableText_literalItems items)).append_toList brackets.2
  | .object members =>
      have brackets : PrintableText "\x7b".toList ∧ PrintableText "\x7d".toList := by decide
      (brackets.1.append_toList (printableText_literalMembers members)).append_toList brackets.2

theorem printableText_literalItems : (items : List Json) →
    PrintableText (literalItems items).toList
  | [] => by decide
  | [item] => printableText_literal item
  | item :: next :: rest =>
      ((printableText_literal item).append_toList printableText_comma).append_toList
        (printableText_literalItems (next :: rest))

theorem printableText_literalMembers : (members : List (String × Json)) →
    PrintableText (literalMembers members).toList
  | [] => by decide
  | [(key, value)] =>
      ((printableText_quote key).append_toList printableText_colon).append_toList
        (printableText_literal value)
  | (key, value) :: next :: rest =>
      ((((printableText_quote key).append_toList printableText_colon).append_toList
        (printableText_literal value)).append_toList printableText_comma).append_toList
          (printableText_literalMembers (next :: rest))

end

/-- The literal of a value is evaluated to the value that is computed for it. -/
theorem evaluate_literal {value : Json}
    (readsBack : ∀ number ∈ value.numbers, number.isFinite → ReadsBack number) :
    evaluate (literal value) = literalValue? value := by
  have printable := printableText_literal value
  obtain ⟨first, more, isTokens, -, -, reads⟩ := spells_literal value readsBack
  rw [evaluate_of_notMem (mt (printable _) (by decide)) (mt (printable _) (by decide)), isTokens,
    Option.bind_some, reads []]
  cases literalValue? value <;> rfl

end Python

end Typeloom
