import Typeloom.Encoding.Document
import Typeloom.Json.Writer
import Typeloom.Report.Reporting
import Typeloom.Uri.Source

/-!
# Forests

A forest holds the documents named on the command line and all documents that can be reached from
them through references, in the order in which they are found, breadth first.
-/

namespace Typeloom

/-- The documents of one compilation as they were read. -/
structure Forest where
  /-- The documents and their addresses, in the order in which they were read. -/
  documents : Table String Json.Members := []
  /-- The addresses of the documents named on the command line. -/
  roots : List String := []
deriving Inhabited, Repr

namespace Forest

open Reporting

/-- The reference of an object that points at another document, if it has one. -/
def ownReference (members : Json.Members) : List String :=
  match (Table.get? members "$ref").bind Json.text? with
  | some target => if Text.beginsWith target "#" then [] else [target]
  | none => []

/-- The values of members are together no larger than the members. -/
theorem sizeOf_values_le (members : Json.Members) :
    sizeOf (Table.values members) ≤ sizeOf members := by
  induction members with
  | nil => simp [Table.values]
  | cons member rest induction =>
      obtain ⟨key, value⟩ := member
      simp only [Table.values, List.map_cons, List.cons.sizeOf_spec, Prod.mk.sizeOf_spec] at *
      omega

/-- The parts of a value and further values are together smaller than the value and the others. -/
theorem sizeOf_append_lt (parts rest : List Json) :
    sizeOf (parts ++ rest) < sizeOf parts + sizeOf rest := by
  induction parts with
  | nil => simp
  | cons part parts induction =>
      simp only [List.cons_append, List.cons.sizeOf_spec]
      omega

/-- The references in pending values that point at another document.  The parts of a value come
before the values that wait behind it, and the reference of an object before those in it. -/
def pendingReferences : List Json → List String
  | [] => []
  | .array items :: rest => pendingReferences (items ++ rest)
  | .object members :: rest =>
      ownReference members ++ pendingReferences (Table.values members ++ rest)
  | _ :: rest => pendingReferences rest
termination_by pending => sizeOf pending
decreasing_by
  · have := sizeOf_append_lt items rest
    simp only [List.cons.sizeOf_spec, Json.array.sizeOf_spec]
    omega
  · have := sizeOf_append_lt (Table.values members) rest
    have := sizeOf_values_le members
    simp only [List.cons.sizeOf_spec, Json.object.sizeOf_spec]
    omega
  · simp only [List.cons.sizeOf_spec]
    omega

/-- The references in a value that point at another document, in the order of the document. -/
def externalReferences (value : Json) : List String :=
  pendingReferences [value]

def decode (bytes : List UInt8) : Except Fault Json := do
  let text ← Encoding.documentText bytes
  match Json.readSettled text with
  | .ok value => return value
  | .error error => throw (.ofReadError error)

/-- What is reported about a document that is no object. -/
def notAnObject (systemId : String) : Diagnostic :=
  { severity := .error, message := "a schema document must be a JSON object"
    systemId := some systemId }

/-- What reading a document leads to: its members, or what is to be reported if it cannot be read
or is no object.  Any other fault ends the compilation. -/
def reading (read : String → Except Fault (List UInt8)) (systemId : String) :
    Except Fault (Except Diagnostic Json.Members) :=
  let reported (severity : Severity) (cause : Cause) :
      Except Fault (Except Diagnostic Json.Members) :=
    .ok (.error (.ofCause cause severity (some systemId)))
  match read systemId >>= decode with
  | .ok (.object members) => .ok (.ok members)
  | .ok _ => .ok (.error (notAnObject systemId))
  | .error (.malformed malformation) => reported .fatal (.malformed malformation)
  | .error (.undecodable reason) => reported .error (.other reason "")
  | .error (.system error) => reported .error error.cause
  | .error fault => .error fault

/-- Read a document, and report it if that fails. -/
def readDocument (read : String → Except Fault (List UInt8)) (systemId : String) :
    Reporting (Option Json.Members) := do
  match ← ofExcept (reading read systemId) with
  | .ok members => return some members
  | .error diagnostic => do
      notify diagnostic
      return none

/-- The addresses of the documents that a document refers to. -/
def neighbours (systemId : String) (members : Json.Members) : Except Fault (List String) :=
  (externalReferences (.object members)).mapM (Uri.documentOf systemId)

/-- An address that is still to be looked at. -/
structure Candidate where
  systemId : String
  isRoot : Bool
deriving Inhabited, Repr

/-- A forest while it grows. -/
structure Growth where
  documents : Table String Json.Members := []
  /-- The addresses of the sources among them. -/
  roots : List String := []
  /-- The addresses that could not be read. -/
  failed : List String := []
  /-- The addresses still to be looked at. -/
  pending : List Candidate
deriving Inhabited, Repr

namespace Growth

/-- A forest that has not begun to grow yet, with the addresses of its sources. -/
def ofRoots (roots : List String) : Growth :=
  { pending := roots.map (Candidate.mk · true) }

/-- Whether an address needs no reading any more. -/
def isSettled (growth : Growth) (systemId : String) : Bool :=
  growth.failed.contains systemId || Table.contains growth.documents systemId

/-- Note that an address is that of a source, if its document was read. -/
def revisit (growth : Growth) (candidate : Candidate) : Growth :=
  { growth with
    roots :=
      if candidate.isRoot && Table.contains growth.documents candidate.systemId &&
          !growth.roots.contains candidate.systemId then
        growth.roots ++ [candidate.systemId]
      else growth.roots }

def add (growth : Growth) (candidate : Candidate) (members : Json.Members) : Growth :=
  { growth with
    documents := Table.set candidate.systemId members growth.documents
    roots := if candidate.isRoot then growth.roots ++ [candidate.systemId] else growth.roots }

/-- Read the document of an address, and look at what it refers to later. -/
def visit (read : String → Except Fault (List UInt8)) (growth : Growth) (candidate : Candidate) :
    Reporting Growth := do
  poll
  match ← readDocument read candidate.systemId with
  | none => return { growth with failed := growth.failed ++ [candidate.systemId] }
  | some members =>
      let grown := growth.add candidate members
      let targets ← ofExcept (neighbours candidate.systemId members)
      let unknown := targets.filter fun target => !Table.contains grown.documents target
      return { grown with pending := grown.pending ++ unknown.map (Candidate.mk · false) }

/-- Look at the next address, if there is one. -/
def step (read : String → Except Fault (List UInt8)) (growth : Growth) :
    Reporting (Option Growth) := do
  match growth.pending with
  | [] => return none
  | candidate :: pending =>
      let growth := { growth with pending }
      if growth.isSettled candidate.systemId then return some (growth.revisit candidate)
      else return some (← growth.visit read candidate)

end Growth

/-- Read the documents of the sources and all that they refer to, or nothing if one of them
cannot be read. -/
def load (read : String → Except Fault (List UInt8)) (directory sources : List String) :
    Reporting (Option Forest) := do
  let roots ← ofExcept (sources.mapM (Uri.ofSource directory))
  let growth ← repeated (Growth.step read) (.ofRoots roots)
  if growth.failed.isEmpty then
    return some { documents := growth.documents, roots := growth.roots }
  return none

/-- A document behind a line with its address. -/
def dumpDocument (systemId : String) (members : Json.Members) : String :=
  "---- " ++ systemId ++ "\n" ++ Json.writeIndented (.object members) ++ "\n"

/-- All documents, in the order in which they were read. -/
def dump (forest : Forest) : String :=
  String.join (forest.documents.map fun (systemId, members) => dumpDocument systemId members)

end Forest

end Typeloom
