import Typeloom.Options.Proxy
import Typeloom.Table
import Typeloom.Uri.Basic

/-!
# Connections

While a run is going on its context is open: remote documents can be fetched, through a proxy if
one is given.  The user and the password of the proxy are given to the proxy alone.
-/

namespace Typeloom

/-- How remote documents are fetched. -/
structure Connection where
  proxy : Option Proxy := none
  /-- The proxies of the system by their schemes, if they are to be used. -/
  systemProxies : Table String String := []
  isOpen : Bool := false
deriving DecidableEq, Repr, Inhabited

namespace Connection

def proxies (connection : Connection) : Table String String :=
  if connection.isOpen then
    match connection.proxy with
    | some proxy => [("http", proxy.url), ("https", proxy.url)]
    | none => connection.systemProxies
  else []

def usualPort? (scheme : List Char) : Option String :=
  [("http", "80"), ("https", "443")].lookup (String.ofList scheme)

/-- The host of an authority, and its port if it names one. -/
def hostAndPort (authority : List Char) : List Char × Option (List Char) :=
  match Text.cutLast ':' authority with
  | (some host, port) =>
      if port.isEmpty then (host, none)
      else if port.all Char.isDigit then (host, some port)
      else (authority, none)
  | (none, _) => (authority, none)

/-- The forms of the authority that an address speaks of: with the usual port of its scheme in
place of a missing one, and as it is. -/
def authorityForms (address : String) : Except Fault (List String) := do
  let uri ← Uri.parse address
  if uri.authority.isEmpty then return [address]
  let asIs := String.ofList uri.authority
  match hostAndPort uri.authority, usualPort? uri.scheme with
  | (host, none), some port => return [String.ofList host ++ ":" ++ port, asIs]
  | _, _ => return [asIs]

/-- The user and the password that are known, with the proxy they are for. -/
def account? (connection : Connection) : Option (Proxy × String × String) := do
  if !connection.isOpen then none
  let proxy ← connection.proxy
  let user ← proxy.user
  return (proxy, user, proxy.password.getD "")

/-- The user and the password for an address: nothing if none are known at all, and no account if
those that are known are not for the address. -/
def credentialsFor (connection : Connection) (address : String) :
    Except Fault (Option (Option (String × String))) := do
  match connection.account? with
  | none => return none
  | some (proxy, user, password) => do
      let known ← authorityForms proxy.url
      let asked ← authorityForms address
      return some (if asked.any known.contains then some (user, password) else none)

def opened (connection : Connection) : Except Fault Connection := do
  match connection.proxy with
  | some proxy => if proxy.user.isSome then let _ ← authorityForms proxy.url
  | none => pure ()
  return { connection with isOpen := true }

def closed (connection : Connection) : Connection :=
  { connection with isOpen := false }

end Connection

end Typeloom
