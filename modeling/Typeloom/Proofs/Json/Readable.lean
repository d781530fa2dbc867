import Typeloom.Proofs.Json.Numerals

/-!
# What is read

A key that occurs again in an object replaces what is under it.  In every object within a value
that is read from a text, the keys are therefore all different, and its integers have no more digits
than may be read.  This is an invariant of the machine that reads: it holds of the containers that
are still open after every token.
-/

namespace Typeloom

namespace Json

/-- Whether the keys of every object within a value are all different. -/
inductive DistinctKeys : Json → Prop where
  | null : DistinctKeys .null
  | bool (value : Bool) : DistinctKeys (.bool value)
  | integer (value : Int) : DistinctKeys (.integer value)
  | number (value : Binary64) : DistinctKeys (.number value)
  | text (value : String) : DistinctKeys (.text value)
  | array {items : List Json} (each : ∀ item ∈ items, DistinctKeys item) :
      DistinctKeys (.array items)
  | object {members : Members} (distinct : (Table.keys members).Nodup)
      (each : ∀ value ∈ Table.values members, DistinctKeys value) :
      DistinctKeys (.object members)

theorem DistinctKeys.get? {members : Members} (distinct : (Json.object members).DistinctKeys)
    {key : String} {value : Json} (found : Table.get? members key = some value) :
    value.DistinctKeys := by
  cases distinct with
  | object _ each => exact each value (Table.mem_values_of_get? found)

theorem DistinctKeys.memberOrNull {members : Members}
    (distinct : (Json.object members).DistinctKeys)
    (key : String) : (Json.memberOrNull members key).DistinctKeys := by
  unfold Json.memberOrNull
  cases found : Table.get? members key with
  | none => exact .null
  | some value => exact distinct.get? found

/-- Whether the keys of every object within a value are all different and no integer within it has
too many digits to be read. -/
inductive IsReadable : Json → Prop where
  | null : IsReadable .null
  | bool (value : Bool) : IsReadable (.bool value)
  | integer {value : Int}
      (short : (Number.decimal value.natAbs).length ≤ Number.digitLimit) :
      IsReadable (.integer value)
  | number (value : Binary64) : IsReadable (.number value)
  | text (value : String) : IsReadable (.text value)
  | array {items : List Json} (each : ∀ item ∈ items, IsReadable item) :
      IsReadable (.array items)
  | object {members : Members} (distinct : (Table.keys members).Nodup)
      (each : ∀ value ∈ Table.values members, IsReadable value) :
      IsReadable (.object members)

theorem IsReadable.distinctKeys {value : Json} (readable : value.IsReadable) :
    value.DistinctKeys := by
  induction readable with
  | null => exact .null
  | bool value => exact .bool value
  | integer => exact .integer _
  | number value => exact .number value
  | text value => exact .text value
  | array _ ih => exact .array ih
  | object distinct _ ih => exact .object distinct ih

/-! ## Tokens -/

/-- Whether the value of a token, if it has one, is one that can be read. -/
def Token.IsReadable : Token → Prop
  | .scalar value => value.IsReadable
  | _ => True

theorem isReadable_integer {digits : List Char} (areDigits : ∀ digit ∈ digits, digit.isDigit)
    (short : digits.length ≤ Number.digitLimit) {value : Int}
    (isValue : value.natAbs = ofDigits digits) : (Json.integer value).IsReadable := by
  refine .integer ((Number.length_decimal_le_iff (by decide)).mpr ?_)
  rw [isValue]
  exact Nat.lt_of_lt_of_le (ofDigits_lt areDigits) (Nat.pow_le_pow_right (by decide) short)

theorem isReadable_wordToken {text : List Char} {token : Token} {length : Nat}
    (begins : wordToken? text = some (token, length)) : token.IsReadable := by
  obtain ⟨entry, found, taken⟩ := Option.map_eq_some_iff.mp begins
  obtain ⟨rfl, -⟩ := Prod.mk.inj taken
  have listed := List.mem_of_find?_eq_some found
  simp only [words, List.mem_cons, List.not_mem_nil, or_false] at listed
  rcases listed with rfl | rfl | rfl | rfl | rfl | rfl <;> constructor

theorem isReadable_unsignedToken {negative : Bool} {text : List Char} {token : Token}
    {length : Nat} (begins : unsignedToken? negative text = some (token, length)) :
    token.IsReadable := by
  unfold unsignedToken? at begins
  dsimp only at begins
  split_ifs at begins <;> cases begins
  all_goals
    first
      | trivial
      | exact .number _
      | exact isReadable_integer (fun _ => isDigit_of_mem_wholeDigits)
          (Nat.le_of_not_lt ‹¬Number.digitLimit < _›) (by simp)

theorem isReadable_numeralToken {text : List Char} {token : Token} {length : Nat}
    (begins : numeralToken? text = some (token, length)) : token.IsReadable := by
  unfold numeralToken? at begins
  split at begins
  · obtain ⟨⟨token, length⟩, found, taken⟩ := Option.map_eq_some_iff.mp begins
    obtain ⟨rfl, -⟩ := Prod.mk.inj taken
    exact isReadable_unsignedToken found
  · exact isReadable_unsignedToken begins

theorem isReadable_tokenAt (position : Nat) (character : Char) (rest : List Char) :
    (tokenAt position character rest).1.IsReadable := by
  unfold tokenAt
  split
  case h_7 => split <;> trivial
  case h_8 =>
    split
    · rename_i token length begins
      rw [Option.orElse_eq_or] at begins
      rcases Option.or_eq_some_iff.mp begins with word | ⟨-, numeral⟩
      · exact isReadable_wordToken word
      · exact isReadable_numeralToken numeral
    · trivial
  all_goals trivial

theorem isReadable_of_mem_tokens {position : Nat} {text : List Char} {entry : Nat × Token}
    (occurs : entry ∈ tokens position text) : entry.2.IsReadable := by
  induction position, text using tokens.induct with
  | case1 position => simp [tokens] at occurs
  | case2 position character rest space ih =>
      rw [tokens, if_pos space] at occurs
      exact ih occurs
  | case3 position character rest noSpace token count taken ih =>
      rw [tokens, if_neg noSpace, taken] at occurs
      rcases List.mem_cons.mp occurs with rfl | later
      · have plain := isReadable_tokenAt position character rest
        rwa [taken] at plain
      · exact ih later

/-! ## The machine -/

/-- Whether what is in an open container can be read. -/
def Frame.IsReadable : Frame → Prop
  | .array items => ∀ item ∈ items, item.IsReadable
  | .object members _ =>
      (Table.keys members).Nodup ∧ ∀ value ∈ Table.values members, value.IsReadable

/-- Whether what has been read so far can be read. -/
def Expectation.IsReadable : Expectation → Prop
  | .value frames => ∀ frame ∈ frames, frame.IsReadable
  | .firstItem frames => ∀ frame ∈ frames, frame.IsReadable
  | .firstKey frames => ∀ frame ∈ frames, frame.IsReadable
  | .nextKey members frames =>
      (Frame.object members "").IsReadable ∧ ∀ frame ∈ frames, frame.IsReadable
  | .colon members _ frames =>
      (Frame.object members "").IsReadable ∧ ∀ frame ∈ frames, frame.IsReadable
  | .delimiter frame frames => frame.IsReadable ∧ ∀ frame ∈ frames, frame.IsReadable
  | .nothing result => result.IsReadable

theorem isReadable_placed {value : Json} {frames : List Frame} (fresh : value.IsReadable)
    (opened : ∀ frame ∈ frames, frame.IsReadable) : (placed value frames).IsReadable := by
  cases frames with
  | nil => exact fresh
  | cons frame frames =>
      obtain ⟨innermost, outer⟩ := List.forall_mem_cons.mp opened
      cases frame with
      | array items => exact ⟨List.forall_mem_cons.mpr ⟨fresh, innermost⟩, outer⟩
      | object members key =>
          refine ⟨⟨Table.nodup_keys_set innermost.1, fun other occurs => ?_⟩, outer⟩
          rcases Table.mem_values_set occurs with rfl | old
          · exact fresh
          · exact innermost.2 other old

theorem isReadable_beginValue {frames : List Frame} {next : Expectation} (position : Nat)
    (token : Token) (readable : token.IsReadable) (opened : ∀ frame ∈ frames, frame.IsReadable)
    (accepts : beginValue frames position token = .ok next) : next.IsReadable := by
  cases token <;> cases accepts
  case openObject => exact opened
  case openArray => exact opened
  case quotedText content => exact isReadable_placed (.text content) opened
  case scalar value => exact isReadable_placed readable opened

theorem isReadable_beginMember {members : Members} {frames : List Frame} {next : Expectation}
    (position : Nat) (token : Token) (object : (Frame.object members "").IsReadable)
    (opened : ∀ frame ∈ frames, frame.IsReadable)
    (accepts : beginMember members frames position token = .ok next) : next.IsReadable := by
  cases token <;> cases accepts
  exact ⟨object, opened⟩

/-- The keys stay all different after every token, and no long integer gets in. -/
theorem Expectation.IsReadable.accept {expectation next : Expectation} {position : Nat}
    {token : Token} (before : expectation.IsReadable) (readable : token.IsReadable)
    (accepts : expectation.accept (position, token) = .ok next) : next.IsReadable := by
  cases expectation with
  | value frames => exact isReadable_beginValue position token readable before accepts
  | firstItem frames =>
      have opened : ∀ frame ∈ Frame.array [] :: frames, frame.IsReadable :=
        List.forall_mem_cons.mpr ⟨by simp [Frame.IsReadable], before⟩
      cases token with
      | closeArray =>
          cases accepts
          exact isReadable_placed (.array (by simp)) before
      | _ => exact isReadable_beginValue position _ readable opened accepts
  | firstKey frames =>
      have empty : (Frame.object [] "").IsReadable :=
        ⟨List.nodup_nil, by simp [Table.values]⟩
      by_cases closes : token = .closeObject
      · subst closes
        cases accepts
        exact isReadable_placed (.object empty.1 empty.2) before
      · have begins : beginMember [] frames position token = .ok next := by
          cases token <;> first | exact accepts | exact absurd rfl closes
        exact isReadable_beginMember position token empty before begins
  | nextKey members frames => exact isReadable_beginMember position token before.1 before.2 accepts
  | colon members key frames =>
      cases token <;> cases accepts
      exact List.forall_mem_cons.mpr before
  | delimiter frame frames =>
      cases frame with
      | array items =>
          cases token with
          | closeArray =>
              cases accepts
              exact isReadable_placed (.array fun item occurs =>
                before.1 item (List.mem_reverse.mp occurs)) before.2
          | comma =>
              cases accepts
              exact List.forall_mem_cons.mpr before
          | _ => cases accepts
      | object members key =>
          cases token with
          | closeObject =>
              cases accepts
              exact isReadable_placed (.object before.1.1 before.1.2) before.2
          | comma =>
              cases accepts
              exact before
          | _ => cases accepts
  | nothing result => cases accepts

theorem isReadable_of_readCharacters {text : List Char} {value : Json}
    (reads : readCharacters text = .ok value) : value.IsReadable := by
  have accepts {entries : List (Nat × Token)} {before after : Expectation}
      (readable : ∀ entry ∈ entries, entry.2.IsReadable) (valid : before.IsReadable)
      (runs : entries.foldlM Expectation.accept before = .ok after) : after.IsReadable := by
    induction entries generalizing before with
    | nil =>
        cases runs
        exact valid
    | cons entry entries ih =>
        obtain ⟨readableEntry, readableRest⟩ := List.forall_mem_cons.mp readable
        rw [List.foldlM_cons] at runs
        cases taken : before.accept entry with
        | error refusal => rw [taken] at runs; cases runs
        | ok next =>
            rw [taken] at runs
            exact ih readableRest (valid.accept readableEntry taken) runs
  unfold readCharacters at reads
  cases runs : (tokens 0 text).foldlM Expectation.accept (.value []) with
  | error refusal => rw [runs] at reads; cases reads
  | ok last =>
      rw [runs] at reads
      have begins : (Expectation.value []).IsReadable := by simp [Expectation.IsReadable]
      have valid : last.IsReadable :=
        accepts (fun entry occurs => isReadable_of_mem_tokens occurs) begins runs
      cases last <;> cases reads
      exact valid

end Json

end Typeloom
