import Typeloom.Json.Equality
import Typeloom.Proofs.Python.Tokens
import Typeloom.Text.Lines

/-!
# Values of Python expressions

The value of an expression of constants, decimal numerals with signs, texts, lists and
dictionaries whose keys are texts.  It is read token by token; the lists and dictionaries that are
still open are kept as a stack, as they are when JSON is read.  Any other name has no value, and
texts that follow one another are one text.
-/

namespace Typeloom

namespace Python

namespace Value

/-- The value behind a sign. -/
def negated? : Value → Option Value
  | .bool value => some (.int (-Json.ofBool value))
  | .int value => some (.int (-value))
  | .float value => some (.float value.negated)
  | _ => Option.none

/-- The value behind a number of signs. -/
def signed? : Nat → Value → Option Value
  | 0, value => some value
  | signs + 1, value => value.negated?.bind (signed? signs)

end Value

def constant? (letters : List Char) : Option Value :=
  [("None".toList, Value.none), ("True".toList, .bool true), ("False".toList, .bool false)].lookup
    letters

/-- A list or a dictionary that is still open, with what has been read of it. -/
inductive Frame where
  /-- A list with its items, the last one first. -/
  | list (items : List Value)
  /-- A dictionary in which a key is read. -/
  | key (members : Table (List Nat) Value)
  /-- A dictionary in which the value of a key is read. -/
  | member (members : Table (List Nat) Value) (key : List Nat)
deriving Inhabited, Repr

inductive Expectation where
  /-- A value, behind a number of signs. -/
  | value (signs : Nat) (frames : List Frame)
  /-- An item of a list, or the end of the list. -/
  | item (items : List Value) (frames : List Frame)
  /-- A member of a dictionary, or the end of the dictionary. -/
  | member (members : Table (List Nat) Value) (frames : List Frame)
  /-- What stands behind a value. -/
  | follower (value : Value) (frames : List Frame)
deriving Inhabited, Repr

/-- The expectation behind a token with which a value begins. -/
def begin? (signs : Nat) (frames : List Frame) : Token → Option Expectation
  | .name letters =>
      ((constant? letters).bind (Value.signed? signs)).map fun value => .follower value frames
  | .numeral value => (value.signed? signs).map fun value => .follower value frames
  | .text codes => ((Value.str codes).signed? signs).map fun value => .follower value frames
  | .symbol '-' => some (.value (signs + 1) frames)
  | .symbol '[' => if signs = 0 then some (.item [] frames) else none
  | .symbol '\x7b' => if signs = 0 then some (.member [] frames) else none
  | .symbol _ => none

/-- The expectation behind the next token. -/
def Expectation.accept? : Expectation → Token → Option Expectation
  | .value signs frames, token => begin? signs frames token
  | .item items frames, .symbol ']' => some (.follower (.list items.reverse) frames)
  | .item items frames, token => begin? 0 (.list items :: frames) token
  | .member members frames, .symbol '\x7d' => some (.follower (.dict members) frames)
  | .member members frames, token => begin? 0 (.key members :: frames) token
  | .follower (.str codes) frames, .text more => some (.follower (.str (codes ++ more)) frames)
  | .follower last (.list items :: frames), .symbol ',' => some (.item (last :: items) frames)
  | .follower last (.list items :: frames), .symbol ']' =>
      some (.follower (.list (last :: items).reverse) frames)
  | .follower (.str key) (.key members :: frames), .symbol ':' =>
      some (.value 0 (.member members key :: frames))
  | .follower last (.member members key :: frames), .symbol ',' =>
      some (.member (Table.set key last members) frames)
  | .follower last (.member members key :: frames), .symbol '\x7d' =>
      some (.follower (.dict (Table.set key last members)) frames)
  | .follower _ _, _ => none

def Expectation.result? : Expectation → Option Value
  | .follower last [] => some last
  | _ => none

/-- The value of an expression, if it has one.  No source holds the null character, and a carriage
return in it is a line end. -/
def evaluate (text : String) : Option Value :=
  if text.toList.contains (Char.ofNat 0) then none
  else
    (tokens? (Text.unifyLineEnds text.toList)).bind fun tokens =>
      (tokens.foldlM Expectation.accept? (.value 0 [])).bind Expectation.result?

theorem evaluate_of_notMem {text : String} (noNull : Char.ofNat 0 ∉ text.toList)
    (noReturn : '\r' ∉ text.toList) :
    evaluate text = (tokens? text.toList).bind fun tokens =>
      (tokens.foldlM Expectation.accept? (.value 0 [])).bind Expectation.result? := by
  rw [evaluate, if_neg (mt List.contains_iff_mem.mp noNull), Text.unifyLineEnds_of_notMem noReturn]

/-- Whether two values are equal and of the same types at every level. -/
inductive Value.Equal : Value → Value → Prop where
  | none : Equal .none .none
  | bool (value : Bool) : Equal (.bool value) (.bool value)
  | int (value : Int) : Equal (.int value) (.int value)
  | float {left right : Binary64} (isNumber : left ≠ .notANumber)
      (same : left.sameValue right) : Equal (.float left) (.float right)
  | str (codes : List Nat) : Equal (.str codes) (.str codes)
  | list {left right : List Value} (each : List.Forall₂ Equal left right) :
      Equal (.list left) (.list right)
  | dict {left right : Table (List Nat) Value}
      (keys : ∀ key, key ∈ Table.keys left ↔ key ∈ Table.keys right)
      (each : ∀ key first second, Table.get? left key = some first →
        Table.get? right key = some second → Equal first second) :
      Equal (.dict left) (.dict right)

/-! ## Expressions within others -/

/-- The expectation of the same place in an expression that stands within others. -/
def Expectation.under (outer : List Frame) : Expectation → Expectation
  | .value signs frames => .value signs (frames ++ outer)
  | .item items frames => .item items (frames ++ outer)
  | .member members frames => .member members (frames ++ outer)
  | .follower last frames => .follower last (frames ++ outer)

theorem begin?_append {signs : Nat} {frames outer : List Frame} {token : Token} :
    begin? signs (frames ++ outer) token =
      (begin? signs frames token).map (Expectation.under outer) := by
  unfold begin?
  split <;> simp [Option.map_map, Function.comp_def, Expectation.under]

theorem accept?_item {items : List Value} {frames : List Frame} {token : Token}
    (goesOn : token ≠ .symbol ']') :
    (Expectation.item items frames).accept? token = begin? 0 (.list items :: frames) token := by
  rw [Expectation.accept?]
  exact goesOn

theorem accept?_member {members : Table (List Nat) Value} {frames : List Frame} {token : Token}
    (goesOn : token ≠ .symbol '\x7d') :
    (Expectation.member members frames).accept? token =
      begin? 0 (.key members :: frames) token := by
  rw [Expectation.accept?]
  exact goesOn

theorem accept?_under {expectation next : Expectation} {token : Token} (outer : List Frame)
    (accepts : expectation.accept? token = some next) :
    (expectation.under outer).accept? token = some (next.under outer) := by
  unfold Expectation.accept? at accepts
  split at accepts
  case h_1 => rw [Expectation.under, Expectation.accept?, begin?_append, accepts]; rfl
  case h_3 goesOn =>
    rw [Expectation.under, accept?_item goesOn, ← List.cons_append, begin?_append, accepts]
    rfl
  case h_5 goesOn =>
    rw [Expectation.under, accept?_member goesOn, ← List.cons_append, begin?_append, accepts]
    rfl
  case h_12 => cases accepts
  all_goals
    cases accepts
    simp [Expectation.under, Expectation.accept?]

theorem foldlM_under {tokens : List Token} {expectation next : Expectation} (outer : List Frame)
    (reads : tokens.foldlM Expectation.accept? expectation = some next) :
    tokens.foldlM Expectation.accept? (expectation.under outer) = some (next.under outer) := by
  induction tokens generalizing expectation with
  | nil =>
      cases reads
      rfl
  | cons token tokens ih =>
      rw [List.foldlM_cons] at reads ⊢
      obtain ⟨middle, accepts, goesOn⟩ := Option.bind_eq_some_iff.mp reads
      rw [accept?_under outer accepts]
      exact ih goesOn

end Python

end Typeloom
