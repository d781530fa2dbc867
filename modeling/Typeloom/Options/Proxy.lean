import Typeloom.Number.Notation
import Typeloom.Text.Pieces
import Typeloom.Unicode.Blank
import Typeloom.Unicode.Digit

/-!
# Proxies

The proxy through which remote documents are fetched, as it is given on the command line:
`[user[:password]@]host[:port]`.
-/

namespace Typeloom

structure Proxy where
  host : String
  port : Nat := 80
  user : Option String := none
  password : Option String := none
deriving DecidableEq, Repr, Inhabited

inductive ProxyProblem where
  /-- It does not have the form of one. -/
  | malformed
  /-- The port has too many digits. -/
  | longPort (digits : Nat)
deriving DecidableEq, Repr, Inhabited

def ProxyProblem.describe (specification : String) : ProxyProblem → String
  | .malformed => specification
  | .longPort digits => Number.describeLongInteger digits

namespace Proxy

/-- Whether a text can be a host or a user. -/
def isName (text : List Char) : Bool :=
  !text.isEmpty && text.all fun character =>
    !(character = ':' || character = '@' || character = '/')

/-- The number that digits of any script stand for. -/
def number? (digits : List Char) : Option Nat :=
  if digits.isEmpty then none
  else
    digits.foldlM
      (fun value digit => (Unicode.decimalValue? digit).map fun unit => value * 10 + unit) 0

def hostAndPort (text : List Char) : Except ProxyProblem (String × Nat) :=
  match Text.cut ':' text with
  | (host, none) => if isName host then .ok (String.ofList host, 80) else .error .malformed
  | (host, some port) =>
      match isName host, number? port with
      | true, some number =>
          if Number.digitLimit < port.length then .error (.longPort port.length)
          else .ok (String.ofList host, number)
      | _, _ => .error .malformed

def userAndPassword (text : List Char) : Except ProxyProblem (String × Option String) :=
  match Text.cut ':' text with
  | (user, none) => if isName user then .ok (String.ofList user, none) else .error .malformed
  | (user, some password) =>
      if isName user && !password.contains '/' then
        .ok (String.ofList user, some (String.ofList password))
      else .error .malformed

/-- The proxy that a text stands for.  Blanks at its ends do not count. -/
def parse (text : String) : Except ProxyProblem Proxy := do
  match Text.cut '@' (Unicode.trim text.toList) with
  | (whole, none) =>
      let (host, port) ← hostAndPort whole
      return { host, port }
  | (credentials, some rest) =>
      let (user, password) ← userAndPassword credentials
      let (host, port) ← hostAndPort rest
      return { host, port, user := some user, password }

def url (proxy : Proxy) : String :=
  "http://" ++ proxy.host ++ ":" ++ toString proxy.port

end Proxy

end Typeloom
