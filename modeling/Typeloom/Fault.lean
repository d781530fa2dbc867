import Typeloom.Json.Reader
import Typeloom.Text.Quoted

/-!
# Faults

What ends a computation without a result.  A fault is a cause: a value that does not have the
shape an operation needs, something that is looked for and missing, or a refusal by the file
system or the network.
-/

namespace Typeloom

inductive PathProblem where
  | missing
  | exists
  | notDirectory
  | isDirectory
  | nameTooLong
deriving DecidableEq, Repr, Inhabited

namespace PathProblem

def number : PathProblem → Nat
  | .missing => 2
  | .exists => 17
  | .notDirectory => 20
  | .isDirectory => 21
  | .nameTooLong => 36

def reason : PathProblem → String
  | .missing => "No such file or directory"
  | .exists => "File exists"
  | .notDirectory => "Not a directory"
  | .isDirectory => "Is a directory"
  | .nameTooLong => "File name too long"

end PathProblem

inductive SystemError where
  /-- The file system refuses an operation on a path. -/
  | file (problem : PathProblem) (path : String)
  | unreachable
  | textOnly
  | brokenPipe
deriving DecidableEq, Repr, Inhabited

/-- An error of the file system with another path put for the one it names. -/
def SystemError.atPath (path : String) : SystemError → SystemError
  | .file problem _ => .file problem path
  | error => error

def SystemError.describe : SystemError → String
  | .file problem path =>
      "[Errno " ++ toString problem.number ++ "] " ++ problem.reason ++ ": " ++ Text.quoted path
  | .unreachable => "<urlopen error not found>"
  | .textOnly => "cannot write a zip archive to a text-only output stream"
  | .brokenPipe => "Broken pipe"

inductive Fault where
  /-- A value of another type is needed. -/
  | wrongType
  /-- A value lacks the operation or the part that is asked of it. -/
  | lacksPart
  | missingKey
  | missingItem
  | unknownEncoding
  | unencodable
  | undecodable (reason : String)
  | undescribable
  /-- A value is of the right type and still refused. -/
  | invalid (reason : String)
  | malformed (malformation : Json.Malformation)
  | system (error : SystemError)
  | contextClosed
  | missingModule (reason : String)
  /-- The command line cannot be turned into options. -/
  | badCommandLine (reason : String)
  | notLoaded
deriving DecidableEq, Repr, Inhabited

/-- What a fault says, if it has words of its own. -/
def Fault.describe? : Fault → Option String
  | .invalid reason => some reason
  | .malformed malformation => some malformation.describe
  | .system error => some error.describe
  | .contextClosed => some "the run context is not open"
  | .missingModule reason => some reason
  | .badCommandLine reason => some reason
  | .notLoaded => some ""
  | _ => none

def Fault.ofReadError : Json.ReadError → Fault
  | .malformed malformation => .malformed malformation
  | .longInteger digits => .invalid (Json.ReadError.longInteger digits).describe

/-- What yields a result after something else does so because that other thing yields one. -/
theorem exists_of_bind_eq_ok {α β ε : Type} {first : Except ε α} {next : α → Except ε β}
    {result : β} (returns : first >>= next = .ok result) :
    ∃ value, first = .ok value ∧ next value = .ok result := by
  cases first with
  | error fault => cases returns
  | ok value => exact ⟨value, rfl, returns⟩

theorem exists_bind_eq_ok {α β ε : Type} {first : Except ε α} {next : α → Except ε β}
    (exists_first : ∃ value, first = .ok value)
    (exists_next : ∀ value, ∃ result, next value = .ok result) :
    ∃ result, first >>= next = .ok result := by
  obtain ⟨value, rfl⟩ := exists_first
  exact exists_next value

section MapM

variable {α β ε : Type} {f : α → Except ε β} {items : List α}

theorem exists_mapM_eq_ok_iff :
    (∃ results, items.mapM f = .ok results) ↔ ∀ item ∈ items, ∃ result, f item = .ok result := by
  induction items with
  | nil => exact ⟨fun _ => by simp, fun _ => ⟨[], rfl⟩⟩
  | cons item items ih =>
      rw [List.mapM_cons, List.forall_mem_cons, ← ih]
      cases first : f item with
      | error error => simp [bind, Except.bind]
      | ok result =>
          cases rest : items.mapM f with
          | error error => simp [bind, Except.bind]
          | ok results => simp [bind, Except.bind, pure, Except.pure]

/-- What is at a place of the results comes from what is at that place of the items. -/
theorem getElem?_of_mapM_eq_ok {results : List β} (mapped : items.mapM f = .ok results)
    {place : Nat} {result : β} :
    results[place]? = some result ↔
      ∃ item, items[place]? = some item ∧ f item = .ok result := by
  induction items generalizing results place with
  | nil =>
      cases mapped
      simp
  | cons item items ih =>
      rw [List.mapM_cons] at mapped
      cases first : f item with
      | error error => simp [first, bind, Except.bind] at mapped
      | ok value =>
          cases rest : items.mapM f with
          | error error => simp [first, rest, bind, Except.bind] at mapped
          | ok values =>
              obtain rfl : value :: values = results := by
                simpa [first, rest, bind, Except.bind, pure, Except.pure] using mapped
              cases place with
              | zero => simp [first]
              | succ place => simp [ih rest]

theorem mem_of_mapM_eq_ok {results : List β} (mapped : items.mapM f = .ok results) {result : β} :
    result ∈ results ↔ ∃ item ∈ items, f item = .ok result := by
  simp only [List.mem_iff_getElem?, getElem?_of_mapM_eq_ok mapped]
  constructor
  · rintro ⟨place, item, atPlace, yields⟩
    exact ⟨item, ⟨place, atPlace⟩, yields⟩
  · rintro ⟨item, ⟨place, atPlace⟩, yields⟩
    exact ⟨place, item, atPlace, yields⟩

/-- What is seen of each result by itself is seen of all results. -/
theorem map_of_mapM_eq_ok {γ : Type} {view : β → γ} {seen : α → γ} {results : List β}
    (views : ∀ item result, f item = .ok result → view result = seen item)
    (mapped : items.mapM f = .ok results) : results.map view = items.map seen := by
  refine List.ext_getElem? fun place => Option.ext fun value => ?_
  simp only [List.getElem?_map, Option.map_eq_some_iff, getElem?_of_mapM_eq_ok mapped]
  constructor
  · rintro ⟨result, ⟨item, atPlace, yields⟩, rfl⟩
    exact ⟨item, atPlace, (views item result yields).symm⟩
  · rintro ⟨item, atPlace, rfl⟩
    obtain ⟨result, yields⟩ :=
      exists_mapM_eq_ok_iff.mp ⟨results, mapped⟩ item (List.mem_of_getElem? atPlace)
    exact ⟨result, ⟨item, atPlace, yields⟩, views item result yields⟩

end MapM

end Typeloom
