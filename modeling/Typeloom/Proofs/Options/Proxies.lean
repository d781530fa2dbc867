import Mathlib.Data.List.Basic
import Mathlib.Data.Nat.Digits.Defs
import Typeloom.Options.Proxy
import Typeloom.Proofs.Json.Numerals

/-!
# Proxies and their written form

A proxy is written as a host, with a user and perhaps a password in front of it and a port behind
it.  No part has a character that would end it, so that a text can be taken apart in at most one
way, although a colon may stand in front of a password, within it or in front of the port.
-/

namespace Typeloom

namespace Proxy

/-! ## Ports -/

/-- A natural number with the digits, of any script, in which it is written. -/
structure Numeral where
  digits : List Char
  /-- The values of the digits. -/
  units : List Nat
  someDigit : digits ≠ []
  reads : digits.map Unicode.decimalValue? = units.map some

/-- The number that is written; its last digit counts the ones. -/
def Numeral.value (numeral : Numeral) : Nat :=
  Nat.ofDigits 10 numeral.units.reverse

/-- What is read from digits is settled by their values. -/
theorem foldlM_digits {digits : List Char} {units : List Nat}
    (reads : digits.map Unicode.decimalValue? = units.map some) (value : Nat) :
    digits.foldlM
        (fun value digit => (Unicode.decimalValue? digit).map fun unit => value * 10 + unit)
        value = some (units.foldl (fun value unit => value * 10 + unit) value) := by
  induction digits generalizing units value with
  | nil =>
      obtain rfl := List.map_eq_nil_iff.mp reads.symm
      rfl
  | cons digit digits ih =>
      cases units with
      | nil => cases reads
      | cons unit units =>
          obtain ⟨isUnit, others⟩ := List.cons.inj reads
          rw [List.foldlM_cons, isUnit]
          exact ih others _

theorem Numeral.value_eq_foldl (numeral : Numeral) :
    numeral.value = numeral.units.foldl (fun value unit => value * 10 + unit) 0 := by
  rw [value, Nat.ofDigits_eq_foldr, List.foldr_reverse]
  simp only [Nat.cast_id, Nat.add_comm, Nat.mul_comm]

theorem number?_digits (numeral : Numeral) : number? numeral.digits = some numeral.value := by
  have notEmpty : numeral.digits.isEmpty = false :=
    List.isEmpty_eq_false_iff.mpr numeral.someDigit
  rw [number?, notEmpty, if_neg Bool.false_ne_true, foldlM_digits numeral.reads,
    numeral.value_eq_foldl]

theorem exists_numeral_of_number? {digits : List Char} {value : Nat}
    (isNumber : number? digits = some value) : ∃ numeral : Numeral, numeral.digits = digits := by
  unfold number? at isNumber
  split at isNumber
  · cases isNumber
  · rename_i notEmpty
    have exists_units : ∀ {digits : List Char} {start : Nat},
        digits.foldlM (fun value digit =>
          (Unicode.decimalValue? digit).map fun unit => value * 10 + unit) start = some value →
        ∃ units : List Nat, digits.map Unicode.decimalValue? = units.map some := by
      intro digits
      induction digits with
      | nil => exact fun _ => ⟨[], rfl⟩
      | cons digit digits ih =>
          intro start goesOn
          rw [List.foldlM_cons] at goesOn
          obtain ⟨next, isNext, goesOn⟩ := Option.bind_eq_some_iff.mp goesOn
          obtain ⟨unit, isUnit, -⟩ := Option.map_eq_some_iff.mp isNext
          obtain ⟨units, areUnits⟩ := ih goesOn
          exact ⟨unit :: units, by rw [List.map_cons, List.map_cons, isUnit, areUnits]⟩
    obtain ⟨units, reads⟩ := exists_units isNumber
    exact ⟨⟨digits, units, by simpa using notEmpty, reads⟩, rfl⟩

/-- Every natural number can be a port. -/
def Numeral.ofNat (value : Nat) : Numeral where
  digits := Number.decimal value
  units := (Number.decimal value).map fun digit => digit.toNat - '0'.toNat
  someDigit := Number.decimal_ne_nil value
  reads := by
    rw [List.map_map]
    refine List.map_congr_left fun digit occurs => ?_
    rw [Unicode.decimalValue?, if_pos (Number.isDigit_of_mem_decimal occurs)]
    rfl

@[simp]
theorem Numeral.digits_ofNat (value : Nat) :
    (Numeral.ofNat value).digits = Number.decimal value :=
  rfl

@[simp]
theorem Numeral.value_ofNat (value : Nat) : (Numeral.ofNat value).value = value := by
  rw [value_eq_foldl]
  exact (List.foldl_map ..).trans (Json.ofDigits_decimal value)

/-- A number with zeros in front of its digits. -/
def Numeral.padded (zeros : Nat) (numeral : Numeral) : Numeral where
  digits := List.replicate zeros '0' ++ numeral.digits
  units := List.replicate zeros 0 ++ numeral.units
  someDigit := List.append_ne_nil_of_right_ne_nil _ numeral.someDigit
  reads := by
    have zero : Unicode.decimalValue? '0' = some 0 := by decide
    rw [List.map_append, List.map_append, List.map_replicate, List.map_replicate, zero,
      numeral.reads]

@[simp]
theorem Numeral.value_padded (zeros : Nat) (numeral : Numeral) :
    (numeral.padded zeros).value = numeral.value := by
  rw [value, value, padded, List.reverse_append, List.reverse_replicate, Nat.ofDigits_append,
    Nat.ofDigits_replicate_zero, Nat.mul_zero, Nat.add_zero]

/-! ## Specifications -/

/-- Whether a text can stand for a host or a user. -/
def IsName (text : List Char) : Prop :=
  text ≠ [] ∧ ∀ mark ∈ [':', '@', '/'], mark ∉ text

instance (text : List Char) : Decidable (IsName text) :=
  @instDecidableAnd _ _ inferInstance (List.decidableBAll (· ∉ text) [':', '@', '/'])

theorem isName_iff {text : List Char} : isName text = true ↔ IsName text := by
  have plain : (∀ character ∈ text, character ∉ [':', '@', '/']) ↔
      ∀ mark ∈ [':', '@', '/'], mark ∉ text :=
    ⟨fun plain mark isMark occurs => plain mark occurs isMark,
      fun free character occurs isMark => free character isMark occurs⟩
  rw [IsName, ← plain]
  simp [isName, and_assoc]

/-- A user, and a password if there is one. -/
structure Account where
  user : String
  password : Option String
  isUser : IsName user.toList
  isPassword : ∀ secret ∈ password, '@' ∉ secret.toList ∧ '/' ∉ secret.toList

/-- What a proxy is made of when it is given on the command line. -/
structure Specification where
  account : Option Account
  host : String
  port : Option Numeral
  isHost : IsName host.toList

/-- What stands in front of the mark that ends it. -/
def Account.written (account : Account) : List Char :=
  account.user.toList ++ account.password.elim [] fun secret => ':' :: secret.toList

/-- A host, and a port if there is one. -/
def writtenHost (host : String) (port : Option Numeral) : List Char :=
  host.toList ++ port.elim [] fun port => ':' :: port.digits

/-- `[user[:password]@]host[:port]`. -/
def Specification.written (specification : Specification) : List Char :=
  (specification.account.elim [] fun account => account.written ++ ['@']) ++
    writtenHost specification.host specification.port

/-- The proxy that is specified, with port 80 if none is given. -/
def Specification.proxy (specification : Specification) : Proxy where
  host := specification.host
  port := specification.port.elim 80 Numeral.value
  user := specification.account.map Account.user
  password := specification.account.bind Account.password

/-- The number of digits of the port. -/
def Specification.portLength (specification : Specification) : Nat :=
  specification.port.elim 0 fun port => port.digits.length

/-! ## Reading -/

section Reading

variable {text : String}

theorem userAndPassword_written (account : Account) :
    userAndPassword account.written = .ok (account.user, account.password) := by
  obtain ⟨user, password, isUser, isPassword⟩ := account
  have noColon : ':' ∉ user.toList := isUser.2 ':' (by simp)
  have named : isName user.toList = true := isName_iff.mpr isUser
  unfold userAndPassword Account.written
  cases password with
  | none =>
      rw [Option.elim_none, List.append_nil, Text.cut_of_notMem noColon]
      simp [named]
  | some secret =>
      have noSlash : '/' ∉ secret.toList := (isPassword secret rfl).2
      rw [Option.elim_some, Text.cut_append_cons noColon]
      simp [named, noSlash]

theorem exists_account_of_userAndPassword {text : List Char} (noMark : '@' ∉ text)
    (accepts : userAndPassword text ≠ .error .malformed) :
    ∃ account : Account, account.written = text := by
  unfold userAndPassword at accepts
  rcases Text.cut_cases ':' text with ⟨-, isCut⟩ | ⟨user, secret, noColon, rfl, isCut⟩
  · rw [isCut] at accepts
    have named : isName text = true := by
      by_contra unnamed
      simp [unnamed] at accepts
    refine ⟨⟨String.ofList text, none, ?_, by simp⟩, ?_⟩
    · rw [String.toList_ofList]
      exact isName_iff.mp named
    · simp [Account.written]
  · rw [isCut] at accepts
    obtain ⟨named, noSlash⟩ : isName user = true ∧ '/' ∉ secret := by
      by_contra malformed
      simp [malformed] at accepts
    refine ⟨⟨String.ofList user, some (String.ofList secret), ?_, ?_⟩, ?_⟩
    · rw [String.toList_ofList]
      exact isName_iff.mp named
    · rintro _ ⟨⟩
      rw [String.toList_ofList]
      exact ⟨fun occurs => noMark (by simp [occurs]), noSlash⟩
    · simp [Account.written]

/-- What is read of a host and a port. -/
theorem hostAndPort_written {host : String} (isHost : IsName host.toList)
    (port : Option Numeral) :
    hostAndPort (writtenHost host port) =
      if Number.digitLimit < port.elim 0 fun port => port.digits.length then
        .error (.longPort (port.elim 0 fun port => port.digits.length))
      else .ok (host, port.elim 80 Numeral.value) := by
  have noColon : ':' ∉ host.toList := isHost.2 ':' (by simp)
  have named : isName host.toList = true := isName_iff.mpr isHost
  unfold hostAndPort writtenHost
  cases port with
  | none =>
      rw [Option.elim_none, List.append_nil, Text.cut_of_notMem noColon]
      simp [named]
  | some port =>
      rw [Option.elim_some, Text.cut_append_cons noColon]
      dsimp only
      rw [named, number?_digits, String.ofList_toList]
      rfl

theorem exists_host_of_hostAndPort {text : List Char}
    (accepts : hostAndPort text ≠ .error .malformed) :
    ∃ host port, IsName (String.toList host) ∧ writtenHost host port = text := by
  unfold hostAndPort at accepts
  rcases Text.cut_cases ':' text with ⟨-, isCut⟩ | ⟨host, digits, -, rfl, isCut⟩
  · rw [isCut] at accepts
    have named : isName text = true := by
      by_contra unnamed
      simp [unnamed] at accepts
    refine ⟨String.ofList text, none, ?_, by simp [writtenHost]⟩
    rw [String.toList_ofList]
    exact isName_iff.mp named
  · rw [isCut] at accepts
    dsimp only at accepts
    split at accepts
    · rename_i value named isNumber
      obtain ⟨port, rfl⟩ := exists_numeral_of_number? isNumber
      refine ⟨String.ofList host, some port, ?_, by simp [writtenHost]⟩
      rw [String.toList_ofList]
      exact isName_iff.mp named
    · exact absurd rfl accepts

/-- The mark behind an account occurs neither in it nor behind it. -/
theorem notMem_writtenHost {host : String} (isHost : IsName host.toList)
    (port : Option Numeral) : '@' ∉ writtenHost host port := by
  have notInHost : '@' ∉ host.toList := isHost.2 '@' (by simp)
  cases port with
  | none => simpa [writtenHost] using notInHost
  | some port =>
      have notInDigits : '@' ∉ port.digits := fun occurs => by
        have isUnit : Unicode.decimalValue? '@' ∈ port.units.map some :=
          port.reads ▸ List.mem_map_of_mem occurs
        have noDigit : Unicode.decimalValue? '@' = none := by decide
        simp [noDigit] at isUnit
      simp [writtenHost, notInHost, notInDigits]

theorem Account.notMem_written (account : Account) : '@' ∉ account.written := by
  obtain ⟨user, password, isUser, isPassword⟩ := account
  have notInUser : '@' ∉ user.toList := isUser.2 '@' (by simp)
  cases password with
  | none => simpa [written] using notInUser
  | some secret => simp [written, notInUser, (isPassword secret rfl).1]

/-- What is read of a specification: its proxy, unless its port has too many digits. -/
theorem parse_of_trim {specification : Specification}
    (isWritten : Unicode.trim text.toList = specification.written) :
    parse text =
      if Number.digitLimit < specification.portLength then
        .error (.longPort specification.portLength)
      else .ok specification.proxy := by
  obtain ⟨account, host, port, isHost⟩ := specification
  unfold parse
  rw [isWritten]
  cases account with
  | none =>
      rw [Specification.written, Option.elim_none, List.nil_append,
        Text.cut_of_notMem (notMem_writtenHost isHost port)]
      dsimp only
      rw [hostAndPort_written isHost, Specification.portLength]
      split <;> rfl
  | some account =>
      rw [Specification.written, Option.elim_some, List.append_assoc, List.singleton_append,
        Text.cut_append_cons account.notMem_written]
      dsimp only
      rw [userAndPassword_written, hostAndPort_written isHost, Specification.portLength]
      split <;> rfl

theorem exists_specification_of_parse (accepts : parse text ≠ .error .malformed) :
    ∃ specification : Specification, Unicode.trim text.toList = specification.written := by
  unfold parse at accepts
  rcases Text.cut_cases '@' (Unicode.trim text.toList) with
    ⟨-, isCut⟩ | ⟨credentials, rest, noMark, isSplit, isCut⟩
  · rw [isCut] at accepts
    dsimp only at accepts
    have hostAccepts : hostAndPort (Unicode.trim text.toList) ≠ .error .malformed := by
      intro malformed
      rw [malformed] at accepts
      exact accepts rfl
    obtain ⟨host, port, isHost, isWritten⟩ := exists_host_of_hostAndPort hostAccepts
    exact ⟨⟨none, host, port, isHost⟩, by simp [Specification.written, isWritten]⟩
  · rw [isCut] at accepts
    dsimp only at accepts
    have userAccepts : userAndPassword credentials ≠ .error .malformed := by
      intro malformed
      rw [malformed] at accepts
      exact accepts rfl
    obtain ⟨account, rfl⟩ := exists_account_of_userAndPassword noMark userAccepts
    have hostAccepts : hostAndPort rest ≠ .error .malformed := by
      intro malformed
      rw [userAndPassword_written, malformed] at accepts
      exact accepts rfl
    obtain ⟨host, port, isHost, rfl⟩ := exists_host_of_hostAndPort hostAccepts
    exact ⟨⟨some account, host, port, isHost⟩, by simp [Specification.written, isSplit]⟩

end Reading

/-- A text is read as the proxy that it specifies, whatever blanks stand around it.  It is refused
as malformed just if it specifies none; apart from that a port may have too many digits to be
read. -/
theorem parse_written :
    (∀ (specification : Specification) (before after : List Char),
      Unicode.IsTrimmed specification.written →
      (∀ character ∈ before, Unicode.isBlank character = true) →
      (∀ character ∈ after, Unicode.isBlank character = true) →
      parse (String.ofList (before ++ specification.written ++ after)) =
        if Number.digitLimit < specification.portLength then
          .error (.longPort specification.portLength)
        else .ok specification.proxy) ∧
    (∀ text proxy, parse text = .ok proxy → ∃ specification : Specification,
      Unicode.trim text.toList = specification.written ∧
        specification.portLength ≤ Number.digitLimit ∧ proxy = specification.proxy) ∧
    ∀ text, parse text = .error .malformed ↔
      ∀ specification : Specification, Unicode.trim text.toList ≠ specification.written := by
  refine ⟨fun specification before after trimmed blankBefore blankAfter => ?_,
    fun text proxy parses => ?_, fun text => ⟨fun malformed specification isWritten => ?_, ?_⟩⟩
  · refine parse_of_trim ?_
    rw [String.toList_ofList]
    exact Unicode.trim_surrounded trimmed blankBefore blankAfter
  · have accepts : parse text ≠ .error .malformed := by
      rw [parses]
      exact nofun
    obtain ⟨specification, isWritten⟩ := exists_specification_of_parse accepts
    rw [parse_of_trim isWritten] at parses
    split at parses
    · cases parses
    · rename_i short
      cases parses
      exact ⟨specification, isWritten, Nat.le_of_not_lt short, rfl⟩
  · rw [parse_of_trim isWritten] at malformed
    split at malformed <;> cases malformed
  · intro unspecified
    by_contra accepts
    obtain ⟨specification, isWritten⟩ := exists_specification_of_parse accepts
    exact unspecified specification isWritten

/-- A specification with every part. -/
def complete : Specification where
  account := some ⟨"bob", some "p:w", by decide, by decide⟩
  host := "proxy"
  port := some (.ofNat 3128)
  isHost := by decide

theorem parse_complete :
    Unicode.IsTrimmed complete.written ∧
      parse " bob:p:w@proxy:3128\n" = .ok ⟨"proxy", 3128, some "bob", some "p:w"⟩ := by
  have trimmed : Unicode.IsTrimmed complete.written := by decide
  refine ⟨trimmed, ?_⟩
  have reads := parse_written.1 complete [' '] ['\n'] trimmed
    (List.forall_mem_singleton.mpr (by decide)) (List.forall_mem_singleton.mpr (by decide))
  have short : ¬Number.digitLimit < complete.portLength := by decide
  rw [if_neg short] at reads
  exact reads

theorem isBlank_of_isDigit {digit : Char} (isDigit : digit.isDigit) :
    Unicode.isBlank digit = false := by
  simp only [Char.isDigit, Bool.and_eq_true, decide_eq_true_eq, ge_iff_le,
    UInt32.le_iff_toNat_le] at isDigit
  obtain ⟨low, high⟩ : 48 ≤ digit.toNat ∧ digit.toNat ≤ 57 := isDigit
  rw [Unicode.isBlank, Unicode.inTable_of_ascii (by omega), Unicode.isAsciiBlank]
  simp only [Bool.or_eq_false_iff, Bool.and_eq_false_iff, decide_eq_false_iff_not]
  omega

/-- A host is refused with a port that has too many digits. -/
theorem parse_of_long {host : String} (isHost : IsName host.toList)
    (begins : ∀ character ∈ host.toList.head?, Unicode.isBlank character = false) {port : Numeral}
    (areDigits : ∀ digit ∈ port.digits, digit.isDigit)
    (long : Number.digitLimit < port.digits.length) :
    parse (String.ofList (host.toList ++ ':' :: port.digits)) =
      .error (.longPort port.digits.length) := by
  have trimmed : Unicode.IsTrimmed (host.toList ++ ':' :: port.digits) := by
    refine ⟨?_, fun last isLast => ?_⟩
    · rwa [List.head?_append_of_ne_nil _ isHost.1]
    · rw [List.append_cons, List.getLast?_append_of_ne_nil _ port.someDigit] at isLast
      exact isBlank_of_isDigit (areDigits last (List.mem_of_getLast? isLast))
  have isTrim : Unicode.trim (String.ofList (host.toList ++ ':' :: port.digits)).toList =
      Specification.written ⟨none, host, some port, isHost⟩ := by
    have isTrim := @Unicode.trim_surrounded [] _ [] trimmed (by simp) (by simp)
    rw [List.append_nil] at isTrim
    rw [String.toList_ofList]
    exact isTrim
  rw [parse_of_trim isTrim]
  exact if_pos long

/-- A port with too many digits is refused, even if most of them are zeros in front of it. -/
theorem parse_longPort :
    parse (String.ofList ("proxy".toList ++ ':' :: (Numeral.ofNat (10 ^ 4300)).digits)) =
        .error (.longPort 4301) ∧
      parse (String.ofList ("proxy".toList ++ ':' :: ((Numeral.ofNat 80).padded 4299).digits)) =
        .error (.longPort 4301) := by
  have refuses (port : Numeral) (areDigits : ∀ digit ∈ port.digits, digit.isDigit)
      (long : port.digits.length = 4301) :
      parse (String.ofList ("proxy".toList ++ ':' :: port.digits)) = .error (.longPort 4301) := by
    have trimmed : Unicode.IsTrimmed "proxy".toList := by decide
    rw [parse_of_long (by decide) trimmed.1 areDigits (by rw [long]; decide), long]
  have refusesPower (exponent : Nat) (long : exponent + 1 = 4301) :
      parse (String.ofList ("proxy".toList ++ ':' :: (Numeral.ofNat (10 ^ exponent)).digits)) =
        .error (.longPort 4301) :=
    refuses _ (fun _ => Number.isDigit_of_mem_decimal)
      ((Number.length_decimal_pow exponent).trans long)
  have eighty : ∀ digit ∈ Number.decimal 80, digit.isDigit :=
    fun _ => Number.isDigit_of_mem_decimal
  refine ⟨refusesPower 4300 rfl,
    refuses _ (List.forall_mem_append.mpr ⟨fun digit isZero => ?_, eighty⟩) ?_⟩
  · rw [List.eq_of_mem_replicate isZero]
    decide
  · rw [Numeral.padded, List.length_append, List.length_replicate]
    rfl

end Proxy

end Typeloom
