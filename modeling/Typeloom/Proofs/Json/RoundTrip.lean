import Typeloom.Json.Writer
import Typeloom.Proofs.Json.Readable

/-!
# What is written is read back

The machine that reads goes over a written value token by token.  Wherever a value is expected, it
has placed the value when it comes to the end of it.
-/

namespace Typeloom

namespace Json

variable {start position : Nat} {rest : List Char}

/-! ## Texts -/

/-- A character in front of the rest of a text, and how many characters both take. -/
def behind (character : Char) (used : Nat) (body : List Char × Nat) : List Char × Nat :=
  (character :: body.1, used + body.2)

theorem textBody_escape {escaped : Char} {used : Nat}
    (isEscape : escape start position rest = .ok (escaped, used)) :
    textBody start position ('\\' :: rest) =
      (textBody start (position + 1 + used) (rest.drop used)).map (behind escaped (1 + used)) := by
  cases taken : textBody start (position + 1 + used) (rest.drop used) with
  | error problem =>
      rw [textBody, if_neg (by decide), if_pos rfl, isEscape]
      simp only [bind, Except.bind, taken]
      rfl
  | ok body =>
      rw [textBody, if_neg (by decide), if_pos rfl, isEscape]
      simp only [bind, Except.bind, taken]
      rfl

theorem textBody_plain {character : Char} (noQuote : character ≠ '\"')
    (noBackslash : character ≠ '\\') (noControl : 32 ≤ character.toNat) :
    textBody start position (character :: rest) =
      (textBody start (position + 1) rest).map (behind character 1) := by
  rw [textBody, if_neg noQuote, if_neg noBackslash, if_neg (Nat.not_lt_of_le noControl)]
  cases textBody start (position + 1) rest <;> rfl

theorem hexadecimalUnit?_hexadecimal {unit : Nat} (isUnit : unit < 0x10000)
    (goesOn : rest ≠ []) : hexadecimalUnit? (Text.hexadecimal 4 unit ++ rest) = some unit := by
  have long : 4 < (Text.hexadecimal 4 unit ++ rest).length := by
    have := List.length_pos_iff.mpr goesOn
    rw [List.length_append, Text.length_hexadecimal]
    omega
  rw [hexadecimalUnit?, if_pos long, List.take_left' (Text.length_hexadecimal 4 unit),
    Text.ofHexadecimal?_hexadecimal, Nat.mod_eq_of_lt isUnit]

theorem noSurrogate (character : Char) :
    isHighSurrogate character.toNat = false ∧ isLowSurrogate character.toNat = false := by
  have valid : character.toNat < 0xD800 ∨ 0xDFFF < character.toNat ∧ character.toNat < 0x110000 :=
    character.valid
  simp only [isHighSurrogate, isLowSurrogate, Bool.and_eq_false_iff, decide_eq_false_iff_not]
  omega

/-- The escape of a code unit that is a character. -/
theorem unitEscape_character {character : Char} (isUnit : character.toNat < 0x10000)
    (goesOn : rest ≠ []) (position : Nat) :
    unitEscape position (Text.hexadecimal 4 character.toNat ++ rest) = .ok (character, 4) := by
  obtain ⟨noHigh, noLow⟩ := noSurrogate character
  have isCharacter : ofUnit character.toNat = character := by
    rw [ofUnit, noHigh, noLow, Bool.or_self, if_neg Bool.false_ne_true, Char.ofNat_toNat]
  rw [unitEscape, hexadecimalUnit?_hexadecimal isUnit goesOn,
    List.drop_left' (Text.length_hexadecimal 4 _)]
  dsimp only
  split
  · rw [noHigh, Bool.false_and, if_neg Bool.false_ne_true, isCharacter]
  · rw [isCharacter]

/-- The escapes of the two halves of a surrogate pair. -/
theorem unitEscape_pair {high low : Nat} (isHigh : isHighSurrogate high = true)
    (isLow : isLowSurrogate low = true) (goesOn : rest ≠ []) (position : Nat) :
    unitEscape position (Text.hexadecimal 4 high ++ (unitText low ++ rest)) =
      .ok (ofSurrogates high low, 10) := by
  have highUnit : high < 0x10000 := by
    simp only [isHighSurrogate, Bool.and_eq_true, decide_eq_true_eq] at isHigh
    omega
  have lowUnit : low < 0x10000 := by
    simp only [isLowSurrogate, Bool.and_eq_true, decide_eq_true_eq] at isLow
    omega
  have long : 4 < (Text.hexadecimal 4 low ++ rest).length := by
    have := List.length_pos_iff.mpr goesOn
    rw [List.length_append, Text.length_hexadecimal]
    omega
  rw [unitEscape, hexadecimalUnit?_hexadecimal highUnit (by simp [unitText]),
    List.drop_left' (Text.length_hexadecimal 4 _)]
  simp only [unitText, List.cons_append, isHigh, decide_eq_true long, Bool.and_self, if_true,
    hexadecimalUnit?_hexadecimal lowUnit goesOn, isLow]

/-- The surrogate pair of a character that needs one. -/
theorem surrogates_of_character {character : Char} (noUnit : 0x10000 ≤ character.toNat) :
    let offset := character.toNat - 0x10000
    isHighSurrogate (0xD800 + offset / 0x400) = true ∧
      isLowSurrogate (0xDC00 + offset % 0x400) = true ∧
      ofSurrogates (0xD800 + offset / 0x400) (0xDC00 + offset % 0x400) = character := by
  have bounded : character.toNat < 0x110000 := by
    rcases character.valid with low | ⟨-, high⟩
    · exact Nat.lt_trans low (by decide)
    · exact high
  intro offset
  have isOffset : offset = character.toNat - 0x10000 := rfl
  have code : 0x10000 + (0xD800 + offset / 0x400 - 0xD800) * 0x400 +
      (0xDC00 + offset % 0x400 - 0xDC00) = character.toNat := by
    omega
  simp only [isHighSurrogate, isLowSurrogate, Bool.and_eq_true, decide_eq_true_eq, ofSurrogates]
  refine ⟨by omega, by omega, ?_⟩
  rw [code, Char.ofNat_toNat]

theorem textBody_letter {letter character : Char} (isEscape : letterEscape? letter = some character)
    (noUnit : letter ≠ 'u') :
    textBody start position (['\\', letter] ++ rest) =
      (textBody start (position + 2) rest).map (behind character 2) := by
  have escaped : escape start position (letter :: rest) = .ok (character, 1) := by
    rw [escape, isEscape]
    exact fun same => noUnit same
  exact textBody_escape escaped

theorem textBody_unitText {unit used : Nat} {character : Char}
    (escaped : unitEscape (position + 1) (Text.hexadecimal 4 unit ++ rest) =
      .ok (character, used)) :
    textBody start position (unitText unit ++ rest) =
      (textBody start (position + 2 + used) ((Text.hexadecimal 4 unit ++ rest).drop used)).map
        (behind character (2 + used)) := by
  have isEscape : escape start position ('u' :: (Text.hexadecimal 4 unit ++ rest)) =
      .ok (character, used + 1) := by
    rw [escape, escaped]
    rfl
  have read := textBody_escape isEscape
  rw [Nat.add_comm used 1, ← Nat.add_assoc, ← Nat.add_assoc, Nat.add_comm 1 used,
    List.drop_succ_cons] at read
  exact read

/-- A character within a text is read back from what is written for it. -/
theorem textBody_writeCharacter (character : Char) (goesOn : rest ≠ []) (start position : Nat) :
    textBody start position (writeCharacter character ++ rest) =
      (textBody start (position + (writeCharacter character).length) rest).map
        (behind character (writeCharacter character).length) := by
  unfold writeCharacter
  split_ifs with isQuote isBackslash isLineFeed isReturn isTab isFormFeed isBackspace isPlain isUnit
  · subst isQuote
    exact textBody_letter rfl (by decide)
  · subst isBackslash
    exact textBody_letter rfl (by decide)
  · subst isLineFeed
    exact textBody_letter rfl (by decide)
  · subst isReturn
    exact textBody_letter rfl (by decide)
  · subst isTab
    exact textBody_letter rfl (by decide)
  · refine textBody_letter ?_ (by decide)
    rw [letterEscape?, ← isFormFeed, Char.ofNat_toNat]
  · refine textBody_letter ?_ (by decide)
    rw [letterEscape?, ← isBackspace, Char.ofNat_toNat]
  · simp only [Bool.and_eq_true, decide_eq_true_eq] at isPlain
    exact textBody_plain isQuote isBackslash isPlain.1
  · rw [textBody_unitText (unitEscape_character isUnit goesOn _),
      List.drop_left' (Text.length_hexadecimal 4 _), unitText, List.length_cons, List.length_cons,
      Text.length_hexadecimal]
  · obtain ⟨isHigh, isLow, isCharacter⟩ :=
      surrogates_of_character (Nat.le_of_not_lt isUnit)
    dsimp only
    have both (high low : Nat) : (Text.hexadecimal 4 high ++ unitText low).length = 10 := by
      simp [unitText, Text.length_hexadecimal]
    rw [List.append_assoc, textBody_unitText (unitEscape_pair isHigh isLow goesOn _), isCharacter,
      ← List.append_assoc, List.drop_left' (both _ _), unitText, List.cons_append, List.cons_append,
      List.length_cons, List.length_cons, both]

theorem textBody_flatMap (content rest : List Char) (start position : Nat) :
    textBody start position (content.flatMap writeCharacter ++ '\"' :: rest) =
      .ok (content, (content.flatMap writeCharacter).length + 1) := by
  induction content generalizing position with
  | nil =>
      rw [List.flatMap_nil, List.nil_append, textBody, if_pos rfl]
      rfl
  | cons character content ih =>
      have goesOn : content.flatMap writeCharacter ++ '\"' :: rest ≠ [] := by simp
      rw [List.flatMap_cons, List.append_assoc, textBody_writeCharacter character goesOn, ih,
        List.length_append, Nat.add_assoc]
      rfl

/-- A quoted text is one token. -/
theorem tokens_writeText (content : String) (rest : List Char) (position : Nat) :
    tokens position (writeText content ++ rest) =
      (position, .quotedText content) :: tokens (position + (writeText content).length) rest := by
  have whole : writeText content ++ rest =
      '\"' :: (content.toList.flatMap writeCharacter ++ '\"' :: rest) := by
    simp [writeText]
  have taken : (content.toList.flatMap writeCharacter ++ '\"' :: rest).drop
      ((content.toList.flatMap writeCharacter).length + 1) = rest := by
    rw [List.drop_append]
    simp
  rw [whole, tokens, if_neg (by decide), tokenAt, textBody_flatMap]
  dsimp only
  rw [taken, String.ofList_toList]
  congr 2
  simp [writeText]
  omega

/-! ## Values without parts -/

/-- A word is one token. -/
theorem tokens_word {name : String} {value : Json} (isWord : (name, value) ∈ words)
    (rest : List Char) (position : Nat) :
    tokens position (name.toList ++ rest) =
      (position, .scalar value) :: tokens (position + name.toList.length) rest := by
  obtain ⟨found, first, others, isName, noSpace, differs⟩ :
      wordToken? (name.toList ++ rest) = some (.scalar value, name.length) ∧
        ∃ first others, name.toList = first :: others ∧ isSpace first = false ∧
          first ∉ ['\x7b', '\x7d', '[', ']', ',', ':', '\"'] := by
    simp only [words, List.mem_cons, List.not_mem_nil, or_false, Prod.mk.injEq] at isWord
    rcases isWord with ⟨rfl, rfl⟩ | ⟨rfl, rfl⟩ | ⟨rfl, rfl⟩ | ⟨rfl, rfl⟩ | ⟨rfl, rfl⟩ | ⟨rfl, rfl⟩
    all_goals exact ⟨rfl, _, _, rfl, rfl, by decide⟩
  have sameLength : name.length = others.length + 1 := by
    rw [← String.length_toList, isName, List.length_cons]
  rw [isName, List.cons_append] at found ⊢
  rw [tokens, noSpace, if_neg Bool.false_ne_true, tokenAt_other differs, found, sameLength,
    Option.some_or]
  simp only [Nat.add_sub_cancel, List.drop_left, List.length_cons]
  rw [Nat.add_assoc, Nat.add_comm 1]

theorem tokens_writeBinary {number : Binary64} (readsBack : number.isFinite → ReadsBack number)
    (delimited : IsDelimited rest) (position : Nat) :
    tokens position (writeScalar (.number number) ++ rest) =
      (position, .scalar (.number number)) ::
        tokens (position + (writeScalar (.number number)).length) rest := by
  cases number with
  | finite negative mantissa exponent =>
      have isNumeral := isNumeralText_writeBinary "Infinity" "NaN" negative mantissa exponent
      exact tokens_numeral (numeralToken?_of_readCharacters isNumeral (readsBack rfl)) delimited
        position
  | infinite negative => cases negative <;> exact tokens_word (by decide) rest position
  | notANumber => exact tokens_word (by decide) rest position

/-! ## The machine on its way over a text -/

/-- The machine that reads gets from one state to another when it goes over a text, whatever
follows, unless that goes on a numeral. -/
def Passes (text : List Char) (before after : Expectation) : Prop :=
  ∀ position rest, IsDelimited rest →
    (tokens position (text ++ rest)).foldlM Expectation.accept before =
      (tokens (position + text.length) rest).foldlM Expectation.accept after

/-- In a state a value is expected within the containers that are open.  It may also be the end of
an array. -/
def ExpectsValue (state : Expectation) (frames : List Frame) : Prop :=
  ∀ position token, token ≠ .closeArray →
    state.accept (position, token) = beginValue frames position token

/-- In a state a key is expected within an object with the given members. -/
def ExpectsKey (state : Expectation) (members : Members) (frames : List Frame) : Prop :=
  ∀ position key, state.accept (position, .quotedText key) = .ok (.colon members key frames)

theorem expectsValue_value (frames : List Frame) : ExpectsValue (.value frames) frames :=
  fun _ _ _ => rfl

theorem expectsValue_firstItem (frames : List Frame) :
    ExpectsValue (.firstItem frames) (.array [] :: frames) := by
  intro position token opens
  cases token <;> first | rfl | exact absurd rfl opens

section Passing

variable {text more : List Char} {before between after : Expectation} {token : Token}

theorem passes_nil (state : Expectation) : Passes [] state state :=
  fun _ _ _ => rfl

/-- A text that is one token. -/
theorem passes_token
    (isToken : ∀ position rest, IsDelimited rest →
      tokens position (text ++ rest) = (position, token) :: tokens (position + text.length) rest)
    (accepts : ∀ position, before.accept (position, token) = .ok after) :
    Passes text before after := by
  intro position rest delimited
  rw [isToken position rest delimited, List.foldlM_cons, accepts]
  rfl

/-- A token whose end does not depend on what follows. -/
theorem Passes.afterToken
    (isToken : ∀ position rest,
      tokens position (text ++ rest) = (position, token) :: tokens (position + text.length) rest)
    (accepts : ∀ position, before.accept (position, token) = .ok between)
    (passes : Passes more between after) : Passes (text ++ more) before after := by
  intro position rest delimited
  rw [List.append_assoc, isToken, List.foldlM_cons, accepts, List.length_append, ← Nat.add_assoc]
  exact passes _ rest delimited

theorem Passes.punctuation {mark : Char} (noSpace : isSpace mark = false)
    (isToken : ∀ position rest, tokenAt position mark rest = (token, 0))
    (accepts : ∀ position, before.accept (position, token) = .ok between)
    (passes : Passes more between after) : Passes (mark :: more) before after := by
  have isMark (position : Nat) (rest : List Char) : tokens position ([mark] ++ rest) =
      (position, token) :: tokens (position + [mark].length) rest := by
    rw [List.singleton_append, tokens, noSpace, if_neg Bool.false_ne_true, isToken]
    rfl
  exact passes.afterToken isMark accepts

theorem Passes.spaces {spaces : List Char} (areSpaces : ∀ space ∈ spaces, isSpace space = true)
    (passes : Passes more before after) : Passes (spaces ++ more) before after := by
  induction spaces with
  | nil => exact passes
  | cons space spaces ih =>
      obtain ⟨isSpace, areOthers⟩ := List.forall_mem_cons.mp areSpaces
      intro position rest delimited
      have goesOn := ih areOthers (position + 1) rest delimited
      rw [Nat.add_assoc, Nat.add_comm 1] at goesOn
      rw [List.cons_append, List.cons_append, tokens, isSpace, if_pos rfl]
      exact goesOn

theorem Passes.append (first : Passes text before between)
    (delimits : ∀ rest, IsDelimited (more ++ rest)) (passes : Passes more between after) :
    Passes (text ++ more) before after := by
  intro position rest delimited
  rw [List.append_assoc, first _ _ (delimits rest), List.length_append, ← Nat.add_assoc]
  exact passes _ rest delimited

theorem Passes.lineBreak (depth : Nat) (passes : Passes more before after) :
    Passes (lineBreak depth ++ more) before after := by
  refine passes.spaces fun space occurs => ?_
  rcases List.mem_cons.mp occurs with rfl | isBlank
  · rfl
  · rw [List.eq_of_mem_replicate isBlank]
    rfl

theorem passes_closeArray (depth : Nat) (items : List Json) (frames : List Frame) :
    Passes (Json.lineBreak depth ++ [']']) (.delimiter (.array items) frames)
      (placed (.array items.reverse) frames) :=
  .lineBreak depth (.punctuation rfl (fun _ _ => rfl) (fun _ => rfl) (passes_nil _))

theorem passes_closeObject (depth : Nat) (members : Members) (key : String)
    (frames : List Frame) :
    Passes (Json.lineBreak depth ++ ['\x7d']) (.delimiter (.object members key) frames)
      (placed (.object members) frames) :=
  .lineBreak depth (.punctuation rfl (fun _ _ => rfl) (fun _ => rfl) (passes_nil _))

end Passing

theorem isDelimited_lineBreak (depth : Nat) (text rest : List Char) :
    IsDelimited (lineBreak depth ++ text ++ rest) := by
  rw [lineBreak, List.cons_append, List.cons_append]
  exact isDelimited_cons (by decide) _

theorem notMem_keys_of_nodup {done rest : Members} {key : String} {value : Json}
    (distinct : (Table.keys (done ++ (key, value) :: rest)).Nodup) : key ∉ Table.keys done := by
  rw [Table.keys, List.map_append, List.nodup_append] at distinct
  intro occurs
  exact distinct.2.2 key occurs key List.mem_cons_self rfl

/-- A member with a new key is added to an object. -/
theorem passes_member {state : Expectation} {done : Members} {frames : List Frame} {key : String}
    {value : Json} {text : List Char} (expects : ExpectsKey state done frames)
    (isNew : key ∉ Table.keys done) (depth : Nat)
    (passes : Passes text (.value (.object done key :: frames))
      (placed value (.object done key :: frames))) :
    Passes (lineBreak depth ++ writeText key ++ [':', ' '] ++ text) state
      (.delimiter (.object (done ++ [(key, value)]) key) frames) := by
  have placedThen : placed value (.object done key :: frames) =
      .delimiter (.object (done ++ [(key, value)]) key) frames := by
    rw [placed, Table.set_of_not_contains value isNew]
  rw [placedThen] at passes
  have spaced : Passes ([' '] ++ text) _ _ := passes.spaces (List.forall_mem_singleton.mpr rfl)
  have named : Passes (':' :: ([' '] ++ text)) (.colon done key frames) _ :=
    .punctuation rfl (fun _ _ => rfl) (fun _ => rfl) spaced
  have whole := (named.afterToken (fun position rest => tokens_writeText key rest position)
    fun position => expects position key).lineBreak depth
  rw [List.append_assoc, List.append_assoc]
  exact whole

mutual

/-- Wherever a value is expected, a written value is read as a whole. -/
theorem passes_indented : (value : Json) → value.IsReadable →
    (∀ number ∈ value.numbers, number.isFinite → ReadsBack number) →
    ∀ (depth : Nat) {state : Expectation} {frames : List Frame}, ExpectsValue state frames →
      Passes (indented depth value) state (placed value frames)
  | .null, _, _, _, _, _, expects =>
      passes_token (fun position rest _ => tokens_word (by decide) rest position)
        fun position => expects position _ nofun
  | .bool false, _, _, _, _, _, expects =>
      passes_token (fun position rest _ => tokens_word (by decide) rest position)
        fun position => expects position _ nofun
  | .bool true, _, _, _, _, _, expects =>
      passes_token (fun position rest _ => tokens_word (by decide) rest position)
        fun position => expects position _ nofun
  | .integer value, .integer short, _, _, _, _, expects =>
      passes_token
        (fun position _ delimited =>
          tokens_numeral (numeralToken?_writeInteger short) delimited position)
        fun position => expects position _ nofun
  | .number value, _, readsBack, _, _, _, expects =>
      passes_token
        (fun position _ delimited =>
          tokens_writeBinary (readsBack value (List.mem_singleton_self value)) delimited position)
        fun position => expects position _ nofun
  | .text value, _, _, _, _, _, expects =>
      passes_token (fun position rest _ => tokens_writeText value rest position)
        fun position => expects position _ nofun
  | .array [], _, _, _, _, _, expects =>
      .punctuation rfl (fun _ _ => rfl) (fun position => expects position _ nofun)
        (.punctuation rfl (fun _ _ => rfl) (fun _ => rfl) (passes_nil _))
  | .array (item :: items), .array each, readsBack, depth, _, frames, expects => by
      have inside := passes_indentedItems (item :: items) (List.cons_ne_nil _ _) each readsBack
        (depth + 1) (expectsValue_firstItem frames)
      have closed := inside.append (isDelimited_lineBreak depth _)
        (passes_closeArray depth _ frames)
      rw [List.append_nil, List.reverse_reverse, ← List.append_assoc] at closed
      exact .punctuation rfl (fun _ _ => rfl) (fun position => expects position _ nofun) closed
  | .object [], _, _, _, _, _, expects =>
      .punctuation rfl (fun _ _ => rfl) (fun position => expects position _ nofun)
        (.punctuation rfl (fun _ _ => rfl) (fun _ => rfl) (passes_nil _))
  | .object (member :: members), .object distinct each, readsBack, depth, _, frames, expects => by
      have expectsKey : ExpectsKey (.firstKey frames) [] frames := fun _ _ => rfl
      obtain ⟨key, inside⟩ := passes_indentedMembers (member :: members) (List.cons_ne_nil _ _)
        each readsBack (depth + 1) expectsKey distinct
      have closed := inside.append (isDelimited_lineBreak depth _)
        (passes_closeObject depth _ key frames)
      rw [List.nil_append, ← List.append_assoc] at closed
      exact .punctuation rfl (fun _ _ => rfl) (fun position => expects position _ nofun) closed

theorem passes_indentedItems : (items : List Json) → items ≠ [] →
    (∀ item ∈ items, item.IsReadable) →
    (∀ number ∈ itemNumbers items, number.isFinite → ReadsBack number) →
    ∀ (depth : Nat) {state : Expectation} {done : List Json} {frames : List Frame},
      ExpectsValue state (.array done :: frames) →
      Passes (indentedItems depth items) state (.delimiter (.array (items.reverse ++ done)) frames)
  | [item], _, each, readsBack, depth, _, _, _, expects => by
      have first := passes_indented item (each item List.mem_cons_self)
        (fun number occurs => readsBack number (List.mem_append_left _ occurs)) depth expects
      exact first.lineBreak depth
  | item :: next :: rest, _, each, readsBack, depth, _, done, frames, expects => by
      have first := passes_indented item (each item List.mem_cons_self)
        (fun number occurs => readsBack number (List.mem_append_left _ occurs)) depth expects
      have others := passes_indentedItems (next :: rest) (List.cons_ne_nil _ _)
        (fun item occurs => each item (List.mem_cons_of_mem _ occurs))
        (fun number occurs => readsBack number (List.mem_append_right _ occurs)) depth
        (expectsValue_value (.array (item :: done) :: frames))
      have goesOn : Passes (',' :: indentedItems depth (next :: rest))
          (placed item (.array done :: frames)) _ :=
        .punctuation rfl (fun _ _ => rfl) (fun _ => rfl) others
      have both := (first.append (fun _ => isDelimited_cons (by decide) _) goesOn).lineBreak depth
      rw [indentedItems, List.reverse_cons, List.append_assoc, List.singleton_append,
        List.append_assoc, List.append_assoc]
      exact both

theorem passes_indentedMembers : (members : List (String × Json)) → members ≠ [] →
    (∀ value ∈ Table.values members, value.IsReadable) →
    (∀ number ∈ memberNumbers members, number.isFinite → ReadsBack number) →
    ∀ (depth : Nat) {state : Expectation} {done : Members} {frames : List Frame},
      ExpectsKey state done frames → (Table.keys (done ++ members)).Nodup →
      ∃ key, Passes (indentedMembers depth members) state
        (.delimiter (.object (done ++ members) key) frames)
  | [(key, value)], _, each, readsBack, depth, _, done, frames, expects, distinct => by
      have isNew := notMem_keys_of_nodup distinct
      have passes := passes_indented value (each value List.mem_cons_self)
        (fun number occurs => readsBack number (List.mem_append_left _ occurs)) depth
        (expectsValue_value (.object done key :: frames))
      exact ⟨key, passes_member expects isNew depth passes⟩
  | (key, value) :: next :: rest, _, each, readsBack, depth, _, done, frames, expects,
      distinct => by
      have isNew := notMem_keys_of_nodup distinct
      have passes := passes_indented value (each value List.mem_cons_self)
        (fun number occurs => readsBack number (List.mem_append_left _ occurs)) depth
        (expectsValue_value (.object done key :: frames))
      have first := passes_member expects isNew depth passes
      have expectsNext : ExpectsKey (.nextKey (done ++ [(key, value)]) frames)
          (done ++ [(key, value)]) frames := fun _ _ => rfl
      rw [List.append_cons] at distinct
      obtain ⟨last, others⟩ := passes_indentedMembers (next :: rest) (List.cons_ne_nil _ _)
        (fun item occurs => each item (List.mem_cons_of_mem _ occurs))
        (fun number occurs => readsBack number (List.mem_append_right _ occurs)) depth
        expectsNext distinct
      have goesOn : Passes (',' :: indentedMembers depth (next :: rest))
          (.delimiter (.object (done ++ [(key, value)]) key) frames) _ :=
        .punctuation rfl (fun _ _ => rfl) (fun _ => rfl) others
      have both := first.append (fun _ => isDelimited_cons (by decide) _) goesOn
      refine ⟨last, ?_⟩
      rw [indentedMembers, List.append_cons done, List.append_assoc _ [','], List.singleton_append]
      exact both

end

/-- What is written for a value is read as that value, whatever blank space follows. -/
theorem readCharacters_indented {value : Json} (readable : value.IsReadable)
    (readsBack : ∀ number ∈ value.numbers, number.isFinite → ReadsBack number)
    {spaces : List Char} (areSpaces : ∀ space ∈ spaces, isSpace space = true) :
    readCharacters (indented 0 value ++ spaces) = .ok value := by
  have delimited : IsDelimited spaces := by
    intro space isFirst
    refine Bool.eq_false_iff.mpr fun isNumeral => ?_
    have isBlank := areSpaces space (List.mem_of_mem_head? isFirst)
    exact Bool.false_ne_true ((isSpace_of_isNumeralCharacter isNumeral).symm.trans isBlank)
  have read := passes_indented value readable readsBack 0 (expectsValue_value []) 0 spaces delimited
  have skipped := (passes_nil (.nothing value)).spaces areSpaces (0 + (indented 0 value).length) []
    isDelimited_nil
  rw [List.append_nil, List.append_nil, tokens] at skipped
  rw [readCharacters, read, placed, skipped]
  rfl

end Json

end Typeloom
