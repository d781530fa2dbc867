import Mathlib
import Typeloom.Proofs.Model.ProperTypes
import Typeloom.Proofs.Render.Renderable

/-!
# Texts of proper types

Types are spelled in Python, in C# and in signatures.  A type that is put together properly has a
text in each of them; none of these texts is empty unless a class or an enum is generated without
a name, and an optional type has the text of the type it stands for with one mark behind it.  In
Python that mark may meet another one: the alternatives of a type are written side by side, and
`None` is written twice among them where null hides in a variant of a union.
-/

namespace Typeloom

/-- What spells types. -/
inductive Speller where
  | python
  | csharp
  | signature
deriving DecidableEq, Repr

namespace Speller

def spell (outline : Outline) : Speller → TypeExpr → Except Fault String
  | .python, type => do return (← Python.typeText outline type).text
  | .csharp, type => CSharp.typeText outline type
  | .signature, type => Signature.typeText outline type

/-- What is written behind an optional type. -/
def mark : Speller → String
  | .python => " | None"
  | .csharp => "?"
  | .signature => "?"

end Speller

namespace TypeExpr

mutual

/-- The types that stand side by side in the text of a type: those of the variants of a union, and
null next to what an optional type stands for. -/
def alternatives : TypeExpr → List TypeExpr
  | ⟨.union, _, variants, _⟩ => alternativesOfAll variants
  | ⟨.optional, _, inner, _⟩ => alternativesOfAll inner ++ [.primitive "null"]
  | type => [type]

def alternativesOfAll : List TypeExpr → List TypeExpr
  | [] => []
  | type :: rest => alternatives type ++ alternativesOfAll rest

end

/-- Whether null is written only where a type is optional: no optional type stands for null, and no
variant of a union is optional. -/
def NullOutside (type : TypeExpr) : Prop :=
  ∀ part : TypeExpr, part.Occurs type → ∀ argument ∈ part.arguments,
    (part.kind = .optional → argument.isNull = false) ∧
      (part.kind = .union → argument.kind ≠ .optional)

end TypeExpr

/-- What is written for a type. -/
structure TypeExpr.IsSpelled (outline : Outline) (type : TypeExpr) : Prop where
  /-- The type has a text, which is empty only for a class or an enum that is generated under an
  empty name. -/
  text : ∀ speller : Speller, ∃ text, speller.spell outline type = .ok text ∧
    (text = "" → type.isNamed = true ∧ outline.typeName type.name = "")
  /-- The text of an optional type is that of the type it stands for and a mark. -/
  optional : type.kind = .optional → ∀ speller : Speller, ∀ inner ∈ type.arguments, ∃ text,
    speller.spell outline inner = .ok text ∧
      speller.spell outline type = .ok (text ++ speller.mark)
  /-- In Python the alternatives stand side by side. -/
  alternatives : ∃ texts : List String,
    type.alternatives.map (Speller.python.spell outline) = texts.map .ok ∧
      Speller.python.spell outline type = .ok (" | ".intercalate texts)
  /-- Null is one of the alternatives once at most, unless it hides in a variant of a union or is
  what an optional type stands for. -/
  nullOnce : type.NullOutside → type.alternatives.countP TypeExpr.isNull ≤ 1

namespace TypeExpr

theorem occurs_trans {part middle type : TypeExpr} (occurs : part.Occurs middle)
    (inside : middle.Occurs type) : part.Occurs type := by
  induction inside with
  | self => exact occurs
  | argument isArgument _ ih => exact .argument isArgument ih

theorem Proper.part {part type : TypeExpr} (proper : type.Proper) (occurs : part.Occurs type) :
    part.Proper :=
  fun _ inside => proper _ (occurs_trans inside occurs)

theorem Proper.formed : ∀ {type : TypeExpr}, type.Proper → type.Formed
  | ⟨kind, name, arguments, constant⟩, proper => by
      obtain ⟨isProper, ofArguments⟩ := proper_iff.mp proper
      have formed : ∀ argument ∈ arguments, argument.Formed :=
        fun argument isArgument => Proper.formed (ofArguments argument isArgument)
      cases kind with
      | array =>
          obtain ⟨item, rfl⟩ := isProper
          exact .single name constant (by simp) (formed item (by simp))
      | optional =>
          obtain ⟨inner, rfl, -⟩ := isProper
          exact .single name constant (by simp) (formed inner (by simp))
      | tuple | union => exact .several name constant (by simp) formed
      | primitive | classRef | enumRef =>
          obtain ⟨-, rfl⟩ := isProper
          exact .leaf name constant (by simp)
      | literal | any =>
          obtain rfl := isProper
          exact .leaf name constant (by simp)

/-! ## Alternatives -/

theorem alternativesOfAll_eq (types : List TypeExpr) :
    alternativesOfAll types = types.flatMap alternatives := by
  induction types with
  | nil => rfl
  | cons type rest ih => rw [alternativesOfAll, ih, List.flatMap_cons]

theorem NullOutside.argument {type argument : TypeExpr} (outside : type.NullOutside)
    (isArgument : argument ∈ type.arguments) : argument.NullOutside :=
  fun part occurs => outside part (.argument isArgument occurs)

/-- A type that is neither optional nor null has alternatives without null. -/
theorem not_isNull_of_mem_alternatives :
    ∀ {type : TypeExpr}, type.Proper → type.NullOutside → type.kind ≠ .optional →
      type.isNull = false → ∀ other ∈ type.alternatives, other.isNull = false
  | ⟨kind, name, arguments, constant⟩, proper, outside, notOptional, notNull, other, occurs => by
      obtain ⟨isProper, ofArguments⟩ := proper_iff.mp proper
      cases kind with
      | union =>
          rw [alternatives, alternativesOfAll_eq] at occurs
          obtain ⟨variant, isVariant, isAlternative⟩ := List.mem_flatMap.mp occurs
          exact not_isNull_of_mem_alternatives (ofArguments variant isVariant)
            (outside.argument isVariant) ((outside _ .self variant isVariant).2 rfl)
            (isProper.2.2 variant isVariant) other isAlternative
      | optional => exact absurd rfl notOptional
      | _ =>
          obtain rfl := List.mem_singleton.mp occurs
          exact notNull

theorem countP_alternatives_le {type : TypeExpr} (proper : type.Proper)
    (outside : type.NullOutside) : type.alternatives.countP isNull ≤ 1 := by
  have apart {other : TypeExpr} (proper : other.Proper) (outside : other.NullOutside)
      (notOptional : other.kind ≠ .optional) (notNull : other.isNull = false) :
      other.alternatives.countP isNull = 0 := by
    apply List.countP_eq_zero.mpr
    intro alternative occurs
    simp [not_isNull_of_mem_alternatives proper outside notOptional notNull alternative occurs]
  obtain ⟨kind, name, arguments, constant⟩ := type
  obtain ⟨isProper, ofArguments⟩ := proper_iff.mp proper
  cases kind with
  | optional =>
      obtain ⟨inner, rfl, notOptional, -⟩ := isProper
      have isInner : inner ∈ [inner] := List.mem_singleton_self inner
      have ofInner := apart (ofArguments inner isInner) (outside.argument isInner) notOptional
        ((outside _ .self inner isInner).1 rfl)
      simp [alternatives, alternativesOfAll, ofInner, primitive, isNull]
  | union => exact (apart proper outside (by simp) rfl).le.trans (Nat.zero_le 1)
  | _ => exact List.countP_le_length

end TypeExpr

/-! ## Python -/

namespace Python

theorem Part.joined_append (left right : List Part) :
    joined (left ++ right) = joined left ++ joined right := by
  rw [joined, List.map_append, String.join_append, ← joined, ← joined]

theorem Part.joined_plain (text : String) : joined [.plain text] = text := by
  simp [joined, Part.text]

theorem text_between (before after : String) (type : TypeText) :
    (type.between before after).text = before ++ type.text ++ after := by
  rw [TypeText.text, TypeText.between, ← List.singleton_append, Part.joined_append,
    Part.joined_append, Part.joined_plain, Part.joined_plain, ← TypeText.text]

theorem text_join (separator : String) (types : List TypeText) :
    (TypeText.join separator types).text = separator.intercalate (types.map TypeText.text) := by
  rw [TypeText.join, TypeText.text]
  induction types with
  | nil => rfl
  | cons first rest ih =>
      cases rest with
      | nil => simp [TypeText.text]
      | cons second rest =>
          simp only [List.map_cons, List.intercalate_cons_cons, String.intercalate_cons_cons,
            Part.joined_append, Part.joined_plain] at ih ⊢
          rw [ih]
          rfl

end Python

namespace Speller

variable {outline : Outline}

/-- Types have texts that stand side by side in the text of a type. -/
def SpellsBeside (outline : Outline) (types : List TypeExpr) (text : String) : Prop :=
  ∃ texts : List String, texts ≠ [] ∧ types.map (python.spell outline) = texts.map .ok ∧
    " | ".intercalate texts = text

theorem SpellsBeside.append {lefts rights : List TypeExpr} {left right : String}
    (ofLefts : SpellsBeside outline lefts left) (ofRights : SpellsBeside outline rights right) :
    SpellsBeside outline (lefts ++ rights) (left ++ " | " ++ right) := by
  obtain ⟨leftTexts, leftNonempty, areLefts, rfl⟩ := ofLefts
  obtain ⟨rightTexts, rightNonempty, areRights, rfl⟩ := ofRights
  refine ⟨leftTexts ++ rightTexts, by simp [leftNonempty], ?_, ?_⟩
  · rw [List.map_append, List.map_append, areLefts, areRights]
  · exact String.intercalate_append_of_ne_nil leftNonempty rightNonempty

theorem spellsBeside_singleton {type : TypeExpr} {text : String}
    (isText : python.spell outline type = .ok text) : SpellsBeside outline [type] text :=
  ⟨[text], by simp, by simp [isText], by simp⟩

theorem spellsBeside_alternativesOfAll {variants : List TypeExpr} (nonempty : variants ≠ [])
    (beside : ∀ variant ∈ variants, ∃ text, Python.typeText outline variant = .ok text ∧
      SpellsBeside outline variant.alternatives text.text) :
    ∃ texts, Python.typeTexts outline variants = .ok texts ∧
      SpellsBeside outline (TypeExpr.alternativesOfAll variants)
        (" | ".intercalate (texts.map Python.TypeText.text)) := by
  induction variants with
  | nil => exact absurd rfl nonempty
  | cons first rest ih =>
      obtain ⟨text, isText, ofFirst⟩ := beside first List.mem_cons_self
      cases rest with
      | nil =>
          refine ⟨[text], by simp only [Python.typeTexts, isText]; rfl, ?_⟩
          simpa [TypeExpr.alternativesOfAll] using ofFirst
      | cons second others =>
          obtain ⟨texts, areTexts, ofRest⟩ := ih (by simp) fun variant isVariant =>
            beside variant (List.mem_cons_of_mem first isVariant)
          refine ⟨text :: texts, by rw [Python.typeTexts, isText, areTexts]; rfl, ?_⟩
          rw [Python.typeTexts] at areTexts
          obtain ⟨secondText, -, areOthers⟩ := exists_of_bind_eq_ok areTexts
          obtain ⟨otherTexts, -, isCons⟩ := exists_of_bind_eq_ok areOthers
          cases isCons
          rw [TypeExpr.alternativesOfAll, List.map_cons, List.map_cons,
            String.intercalate_cons_cons]
          exact ofFirst.append ofRest

theorem exists_spellsBeside (outline : Outline) :
    ∀ {type : TypeExpr}, type.Proper →
      ∃ text, Python.typeText outline type = .ok text ∧
        SpellsBeside outline type.alternatives text.text
  | ⟨kind, name, arguments, constant⟩, proper => by
      obtain ⟨isProper, ofArguments⟩ := TypeExpr.proper_iff.mp proper
      obtain ⟨text, isText, -⟩ := Python.exists_typeText outline proper.formed
      refine ⟨text, isText, ?_⟩
      have alone : SpellsBeside outline [⟨kind, name, arguments, constant⟩] text.text :=
        spellsBeside_singleton (by rw [spell, isText]; rfl)
      cases kind with
      | union =>
          have nonempty : arguments ≠ [] :=
            List.ne_nil_of_length_pos (Nat.lt_of_lt_of_le Nat.zero_lt_two isProper.1)
          obtain ⟨texts, areTexts, beside⟩ := spellsBeside_alternativesOfAll nonempty
            fun variant isVariant => exists_spellsBeside outline (ofArguments variant isVariant)
          rw [Python.typeText, areTexts] at isText
          cases isText
          rw [TypeExpr.alternatives, Python.text_join]
          exact beside
      | optional =>
          obtain ⟨inner, rfl, -⟩ := isProper
          obtain ⟨innerText, isInner, beside⟩ :=
            exists_spellsBeside outline (ofArguments inner (List.mem_singleton_self inner))
          rw [Python.typeText, isInner] at isText
          cases isText
          have isNull : SpellsBeside outline [.primitive "null"] "None" :=
            spellsBeside_singleton rfl
          have behind :
              innerText.text ++ " | " ++ "None" = (innerText.between "" " | None").text := by
            rw [Python.text_between, String.append_assoc, String.empty_append]
            rfl
          rw [TypeExpr.alternatives, TypeExpr.alternativesOfAll, TypeExpr.alternativesOfAll,
            List.append_nil, ← behind]
          exact beside.append isNull
      | _ => exact alone

/-! ## Texts -/

theorem exists_spell (speller : Speller) (outline : Outline) {type : TypeExpr}
    (formed : type.Formed) : ∃ text, speller.spell outline type = .ok text := by
  cases speller with
  | python =>
      obtain ⟨text, isText, -⟩ := Python.exists_typeText outline formed
      exact ⟨text.text, by rw [spell, isText]; rfl⟩
  | csharp => exact CSharp.exists_typeText outline formed
  | signature => exact Signature.exists_typeText outline formed

theorem typeName_eq_empty_of_fullName {name : String}
    (empty : Signature.fullName outline name = "") : outline.typeName name = "" := by
  unfold Signature.fullName at empty
  unfold Outline.typeName
  cases found : outline.resolve? name with
  | none => simpa [found] using empty
  | some entry =>
      rw [found] at empty
      simp only [TypeOutline.fullName] at empty ⊢
      split at empty
      · exact (String.append_eq_empty_iff.mp empty).2
      · exact empty

/-- The text of an optional type is that of the type it stands for and a mark. -/
theorem spell_optional (speller : Speller) {type inner : TypeExpr}
    (isOptional : type.kind = .optional) (isInner : type.arguments = [inner]) {text : String}
    (isText : speller.spell outline inner = .ok text) :
    speller.spell outline type = .ok (text ++ speller.mark) := by
  obtain ⟨kind, name, arguments, constant⟩ := type
  cases isOptional
  cases isInner
  cases speller with
  | python =>
      obtain ⟨innerText, isInnerText, isEnd⟩ := exists_of_bind_eq_ok isText
      cases isEnd
      rw [spell, Python.typeText, isInnerText]
      change Except.ok (innerText.between "" " | None").text = _
      rw [Python.text_between, String.empty_append]
      rfl
  | csharp =>
      rw [spell] at isText ⊢
      rw [CSharp.typeText, isText]
      rfl
  | signature =>
      rw [spell] at isText ⊢
      rw [Signature.typeText, isText]
      rfl

end Speller

/-! ## Texts that are not empty -/

theorem ok_empty_ne_of_map {α : Type} {first : Except Fault α} {view : α → String}
    (nonempty : ∀ value, view value ≠ "") : (do return view (← first)) ≠ Except.ok "" := by
  intro isText
  obtain ⟨value, -, isView⟩ := exists_of_bind_eq_ok isText
  exact nonempty value (Except.ok.inj isView)

theorem CSharp.primitiveType_ne_empty (name : String) : primitiveType name ≠ "" := by
  unfold primitiveType
  simp only [List.lookup]
  repeat' split
  all_goals decide

theorem CSharp.typeText_ne_empty {outline : Outline} {type : TypeExpr}
    (notNamed : type.isNamed = false) : typeText outline type ≠ .ok "" := by
  obtain ⟨kind, name, arguments, constant⟩ := type
  cases kind with
  | primitive | literal => simpa [typeText] using primitiveType_ne_empty name
  | classRef | enumRef => simp [TypeExpr.isNamed] at notNamed
  | array | optional =>
      cases arguments with
      | nil => simp [typeText]
      | cons =>
          rw [typeText]
          exact ok_empty_ne_of_map (by simp [String.append_eq_empty_iff])
  | tuple =>
      match arguments with
      | [] | [_] => simp [typeText]
      | _ :: _ :: _ =>
          rw [typeText]
          exact ok_empty_ne_of_map (by simp [String.append_eq_empty_iff])
  | union | any => simp [typeText]

theorem Signature.typeText_ne_empty {outline : Outline} {type : TypeExpr} (isProper : type.IsProper)
    (notNamed : type.isNamed = false) : typeText outline type ≠ .ok "" := by
  obtain ⟨kind, name, arguments, constant⟩ := type
  cases kind with
  | primitive =>
      have nonempty : ∀ listed ∈ Analysis.primitiveTypes, listed ≠ "" := by decide
      simpa [typeText] using nonempty name isProper.1
  | classRef | enumRef => simp [TypeExpr.isNamed] at notNamed
  | array | optional =>
      cases arguments with
      | nil => simp [typeText]
      | cons =>
          rw [typeText]
          exact ok_empty_ne_of_map (by simp [String.append_eq_empty_iff])
  | tuple | union =>
      rw [typeText]
      exact ok_empty_ne_of_map (by simp [String.append_eq_empty_iff])
  | literal | any => simp [typeText, String.append_eq_empty_iff]

/-- Apart from names there is always something in the text of a type. -/
theorem Python.exists_plain_of_typeText {outline : Outline} {type : TypeExpr}
    (isProper : type.IsProper) (notNamed : type.isNamed = false) {text : TypeText}
    (isText : typeText outline type = .ok text) :
    ∃ part, Part.plain part ∈ text.parts ∧ part ≠ "" := by
  obtain ⟨kind, name, arguments, constant⟩ := type
  cases kind with
  | primitive =>
      have nonempty : ∀ listed ∈ Analysis.primitiveTypes,
          (primitiveType? listed).all (· ≠ "") = true := by decide
      have spelled := nonempty name isProper.1
      rw [typeText] at isText
      split at isText
      · rename_i part isPart
        cases isText
        exact ⟨part, by simp [TypeText.plain], by simpa [isPart] using spelled⟩
      · cases isText
        exact ⟨"Any", by simp [TypeText.any], by decide⟩
  | classRef | enumRef => simp [TypeExpr.isNamed] at notNamed
  | array =>
      obtain ⟨item, rfl⟩ := isProper
      obtain ⟨itemText, -, isEnd⟩ := exists_of_bind_eq_ok isText
      cases isEnd
      exact ⟨"]", by simp [TypeText.between], by decide⟩
  | tuple =>
      cases arguments with
      | nil =>
          cases isText
          exact ⟨"tuple", by simp [TypeText.plain], by decide⟩
      | cons =>
          obtain ⟨texts, -, isEnd⟩ := exists_of_bind_eq_ok isText
          cases isEnd
          exact ⟨"]", by simp [TypeText.between], by decide⟩
  | union =>
      match arguments, isProper with
      | first :: second :: rest, _ =>
          obtain ⟨texts, areTexts, isEnd⟩ := exists_of_bind_eq_ok isText
          obtain ⟨firstText, -, areRest⟩ := exists_of_bind_eq_ok areTexts
          obtain ⟨others, areOthers, isCons⟩ := exists_of_bind_eq_ok areRest
          obtain ⟨secondText, -, areLast⟩ := exists_of_bind_eq_ok areOthers
          obtain ⟨last, -, isConsToo⟩ := exists_of_bind_eq_ok areLast
          cases isConsToo
          cases isCons
          cases isEnd
          exact ⟨" | ", by simp [TypeText.join, List.intercalate_cons_cons], by decide⟩
  | optional =>
      obtain ⟨inner, rfl, -⟩ := isProper
      obtain ⟨innerText, -, isEnd⟩ := exists_of_bind_eq_ok isText
      cases isEnd
      exact ⟨" | None", by simp [TypeText.between], by decide⟩
  | literal =>
      cases isText
      refine ⟨_, List.mem_singleton_self _, ?_⟩
      simp [String.append_eq_empty_iff]
  | any =>
      cases isText
      exact ⟨"Any", by simp [TypeText.any], by decide⟩

theorem Python.joined_ne_empty {parts : List Part} {part : String} (occurs : .plain part ∈ parts)
    (nonempty : part ≠ "") : Part.joined parts ≠ "" := by
  obtain ⟨before, behind, rfl⟩ := List.append_of_mem occurs
  rw [← List.singleton_append, Part.joined_append, Part.joined_append, Part.joined_plain]
  simp [String.append_eq_empty_iff, nonempty]

/-! ## Spelled types -/

namespace Speller

theorem named_of_spell_eq_empty (speller : Speller) {outline : Outline} {type : TypeExpr}
    (isProper : type.IsProper) (isEmpty : speller.spell outline type = .ok "") :
    type.isNamed = true ∧ outline.typeName type.name = "" := by
  have named : type.isNamed = true := by
    by_contra notNamed
    rw [Bool.not_eq_true] at notNamed
    cases speller with
    | python =>
        obtain ⟨text, isText, isJoined⟩ := exists_of_bind_eq_ok isEmpty
        obtain ⟨part, occurs, nonempty⟩ :=
          Python.exists_plain_of_typeText isProper notNamed isText
        exact Python.joined_ne_empty occurs nonempty (Except.ok.inj isJoined)
    | csharp => exact CSharp.typeText_ne_empty notNamed isEmpty
    | signature => exact Signature.typeText_ne_empty isProper notNamed isEmpty
  refine ⟨named, ?_⟩
  obtain ⟨kind, name, arguments, constant⟩ := type
  cases kind with
  | classRef | enumRef =>
      cases speller with
      | python => simpa [spell, Python.typeText, Python.TypeText.text, Python.Part.joined,
          Python.Part.ofType, Python.Part.text] using isEmpty
      | csharp => simpa [spell, CSharp.typeText] using isEmpty
      | signature =>
          apply typeName_eq_empty_of_fullName
          simpa [spell, Signature.typeText] using isEmpty
  | _ => simp [TypeExpr.isNamed] at named

end Speller

/-- A proper type is spelled, whatever it is generated for. -/
theorem TypeExpr.Proper.isSpelled {type : TypeExpr} (proper : type.Proper) (outline : Outline) :
    type.IsSpelled outline where
  text speller := by
    obtain ⟨text, isText⟩ := Speller.exists_spell speller outline proper.formed
    exact ⟨text, isText, fun empty =>
      Speller.named_of_spell_eq_empty speller (proper type .self) (empty ▸ isText)⟩
  optional isOptional speller inner isInner := by
    have isProper := proper type .self
    rw [IsProper, isOptional] at isProper
    obtain ⟨only, isOnly, -⟩ := isProper
    rw [isOnly] at isInner
    obtain rfl := List.mem_singleton.mp isInner
    obtain ⟨text, isText⟩ := Speller.exists_spell speller outline
      (proper.part (.argument (isOnly ▸ List.mem_singleton_self inner) .self)).formed
    exact ⟨text, isText, Speller.spell_optional speller isOptional isOnly isText⟩
  alternatives := by
    obtain ⟨text, isText, texts, -, areTexts, joined⟩ :=
      Speller.exists_spellsBeside outline proper
    refine ⟨texts, areTexts, ?_⟩
    rw [joined, Speller.spell, isText]
    rfl
  nullOnce outside := countP_alternatives_le proper outside

namespace Analysis

/-- In every field of a class that an analysis yields, the types are put together properly at any
depth, and each of them can be spelled: none asks for an argument that is not there or leaves an
empty text, unless a class or an enum is generated without a name, and none that is optional marks a
type that is optional itself.  In Python, where a union is written as its variants, null is written
once at most unless it hides in a variant or is what an optional type stands for. -/
theorem proper_of_analyze {library : Library} {request : Request} {channel after : Channel}
    {result : State}
    (returned : (analyze library request).onChannel channel = (.ok result, after)) :
    ∀ definition ∈ result.classes, ∀ field ∈ definition.fields,
      ∀ part : TypeExpr, part.Occurs field.type →
        part.IsProper ∧ ∀ outline, part.IsSpelled outline := by
  intro definition isClass field isField part occurs
  have proper := of_analyze_eq_ok (ensures_proper _) returned definition isClass field isField
  exact ⟨proper part occurs, (proper.part occurs).isSpelled⟩

/-- An order whose size, which may be missing, is a number or a text or null, where text or null is
a variant of its own. -/
def nullableSize : Library where
  documents :=
    [{ systemId := "file:///work/doc.json"
       rootName := "doc"
       root := none
       definitions :=
         [{ name := "Order"
            pointer := "#/definitions/Order"
            body := .object
              { info := { pointer := "#/definitions/Order" }
                properties :=
                  [{ info := { pointer := "#/definitions/Order/properties/size" }
                     name := "size"
                     type := .union { pointer := "#/definitions/Order/properties/size" } .oneOf
                       [.primitive { pointer := "#/definitions/Order/properties/size/oneOf/0" }
                          (.text "integer"),
                        .union { pointer := "#/definitions/Order/properties/size/oneOf/1" } .oneOf
                          [.primitive
                             { pointer := "#/definitions/Order/properties/size/oneOf/1/oneOf/0" }
                             (.text "string"),
                           .primitive
                             { pointer := "#/definitions/Order/properties/size/oneOf/1/oneOf/1" }
                             (.text "null")]]
                     required := false
                     default? := none }] } }]
       package := .null }]

/-- The type of the size: a text or null is one of its alternatives. -/
def sizeType : TypeExpr :=
  TypeExpr.optional (.unionOf [.primitive "integer", (TypeExpr.primitive "string").optional])

theorem exists_analyze_nullableSize : ∃ result channel,
    (analyze nullableSize {}).onChannel {} = (.ok result, channel) ∧ channel.errors = 0 ∧
      ∃ definition ∈ result.classes, ∃ field ∈ definition.fields, field.type = sizeType := by
  have types : ((analyze nullableSize {}).onChannel {}).1.toOption.map (fun state =>
      state.classes.map fun definition => definition.fields.map FieldDefinition.type) =
        some [[sizeType]] := by
    cbv
  have noError : ((analyze nullableSize {}).onChannel {}).2.errors = 0 := by decide +kernel
  rcases returned : (analyze nullableSize {}).onChannel {} with ⟨stop | result, channel⟩
  · rw [returned] at types
    contradiction
  · rw [returned] at types noError
    obtain ⟨definition, rest, isClasses, isFields, -⟩ :=
      List.map_eq_cons_iff.mp (Option.some.inj types)
    obtain ⟨field, others, areFields, isType, -⟩ := List.map_eq_cons_iff.mp isFields
    exact ⟨result, channel, rfl, noError, definition, by simp [isClasses], field,
      by simp [areFields], isType⟩

theorem proper_nullableSize : ∃ result channel,
    (analyze nullableSize {}).onChannel {} = (.ok result, channel) ∧
      ∃ definition ∈ result.classes, ∃ field ∈ definition.fields, field.type = sizeType ∧
        ∀ part : TypeExpr, part.Occurs field.type →
          part.IsProper ∧ ∀ outline, part.IsSpelled outline := by
  obtain ⟨result, channel, returned, -, definition, isClass, field, isField, isType⟩ :=
    exists_analyze_nullableSize
  exact ⟨result, channel, returned, definition, isClass, field, isField, isType,
    proper_of_analyze returned definition isClass field isField⟩

/-- In the text of the size `None` is written twice. -/
theorem none_twice_nullableSize : ∃ result channel,
    (analyze nullableSize {}).onChannel {} = (.ok result, channel) ∧ channel.errors = 0 ∧
      ∃ definition ∈ result.classes, ∃ field ∈ definition.fields, ∀ outline,
        Speller.python.spell outline field.type = .ok "int | str | None | None" := by
  obtain ⟨result, channel, returned, noError, definition, isClass, field, isField, isType⟩ :=
    exists_analyze_nullableSize
  refine ⟨result, channel, returned, noError, definition, isClass, field, isField, ?_⟩
  intro outline
  rw [isType]
  rfl

end Analysis

end Typeloom
