import Mathlib.Logic.Relation
import Typeloom.Proofs.Model.Trace

/-!
# Aliases that refer to themselves

The aliases of an analysis form a graph: an alias refers to those to which the references lead that
are translated with it.  Following aliases from a reference, the analysis comes upon one that it is
following already just if the reference leads to an alias from which a cycle can be reached.  That
is what it reports as a circular reference.
-/

namespace Typeloom

/-! ## Translated references -/

namespace Node

mutual

/-- The references in a node that are translated with it: those of its parts, of its base and of
its properties, but for the ignored ones. -/
def translatedReferences (ignored : List Json) : Node → List Reference
  | .ref reference => [reference]
  | .primitive _ _ => []
  | .const _ _ _ => []
  | .enum _ _ _ _ => []
  | .array _ none _ => []
  | .array _ (some item) _ => translatedReferences ignored item
  | .tuple _ items _ => translatedReferencesOfAll ignored items
  | .union _ _ variants => translatedReferencesOfAll ignored variants
  | .object body => translatedReferencesOfProperties ignored body.properties
  | .allOf _ base none => base.toList
  | .allOf _ base (some body) =>
      base.toList ++ translatedReferencesOfProperties ignored body.properties

def translatedReferencesOfAll (ignored : List Json) : List Node → List Reference
  | [] => []
  | node :: rest => translatedReferences ignored node ++ translatedReferencesOfAll ignored rest

def translatedReferencesOfProperties (ignored : List Json) : List (Property Node) → List Reference
  | [] => []
  | property :: rest =>
      if Analysis.isListed property.name ignored then
        translatedReferencesOfProperties ignored rest
      else
        translatedReferences ignored property.type ++ translatedReferencesOfProperties ignored rest

end

end Node

namespace Analysis

open Reporting

section Graph

variable (setting : Setting) (declared : Table Key Declaration)

/-- The references that are translated with a declaration. -/
def Declaration.references (declaration : Declaration) : List Reference :=
  declaration.node.translatedReferences setting.request.ignoredFields

/-- Whether a reference in a document resolves to the root or definition with a key. -/
def Resolves (document : Nat) (reference : Reference) (key : Key) : Prop :=
  ∃ target, setting.library.resolve document reference = .ok (some target) ∧
    (target.document.systemId, target.key) = key

/-- Whether a reference in a document leads to an alias. -/
structure LeadsTo (document : Nat) (reference : Reference) (key : Key)
    (declaration : Declaration) : Prop where
  resolves : Resolves setting document reference key
  isDeclared : Table.get? declared key = some declaration
  isAlias : declaration.kind = .alias

/-- Whether an alias refers to another one. -/
def AliasRefers (key other : Key) : Prop :=
  ∃ declaration, Table.get? declared key = some declaration ∧ declaration.kind = .alias ∧
    ∃ reference ∈ declaration.references setting, ∃ target,
      LeadsTo setting declared declaration.document reference other target

/-- Whether a cycle of aliases can be reached from an alias. -/
def ReachesCycle (key : Key) : Prop :=
  ∃ other, Relation.ReflTransGen (AliasRefers setting declared) key other ∧
    Relation.TransGen (AliasRefers setting declared) other other

/-- Whether a cycle of aliases can be reached from the body of a declared class. -/
def HasReachableCycle : Prop :=
  ∃ declaration ∈ Table.values declared, declaration.kind = .classDefinition ∧
    ∃ reference ∈ declaration.references setting, ∃ key target,
      LeadsTo setting declared declaration.document reference key target ∧
        ReachesCycle setting declared key

/-- Whether following a reference leads back to an alias that is being followed. -/
inductive Meets : List Key → Nat → Reference → Prop
  | circle {resolving : List Key} {document : Nat} {reference : Reference} {key : Key}
      {declaration : Declaration}
      (leads : LeadsTo setting declared document reference key declaration)
      (isFollowed : key ∈ resolving) : Meets resolving document reference
  | through {resolving : List Key} {document : Nat} {reference inner : Reference} {key : Key}
      {declaration : Declaration}
      (leads : LeadsTo setting declared document reference key declaration)
      (unknown : key ∉ resolving) (occurs : inner ∈ declaration.references setting)
      (meets : Meets (resolving ++ [key]) declaration.document inner) :
      Meets resolving document reference

end Graph

section Walks

variable {setting : Setting} {declared : Table Key Declaration} {resolving : List Key}
  {document : Nat} {reference : Reference} {key : Key} {declaration : Declaration}

theorem Resolves.unique {other : Key} (resolves : Resolves setting document reference key)
    (resolvesToo : Resolves setting document reference other) : key = other := by
  obtain ⟨found, isFound, rfl⟩ := resolves
  obtain ⟨same, isFoundToo, rfl⟩ := resolvesToo
  obtain rfl := Option.some.inj (Except.ok.inj (isFound.symm.trans isFoundToo))
  rfl

theorem LeadsTo.unique {other : Key} {target : Declaration}
    (leads : LeadsTo setting declared document reference key declaration)
    (leadsToo : LeadsTo setting declared document reference other target) :
    key = other ∧ declaration = target := by
  obtain rfl := leads.resolves.unique leadsToo.resolves
  exact ⟨rfl, Option.some.inj (leads.isDeclared.symm.trans leadsToo.isDeclared)⟩

theorem Meets.leads (meets : Meets setting declared resolving document reference) :
    ∃ key declaration, LeadsTo setting declared document reference key declaration := by
  cases meets with
  | circle leads => exact ⟨_, _, leads⟩
  | through leads => exact ⟨_, _, leads⟩

/-- A reference that does not lead to an alias leads back to none. -/
theorem not_meets {target? : Option Target}
    (resolves : setting.library.resolve document reference = .ok target?)
    (noAlias : ∀ target ∈ target?, ∀ declaration,
      Table.get? declared (target.document.systemId, target.key) = some declaration →
        declaration.kind ≠ .alias) :
    ¬Meets setting declared resolving document reference := by
  intro meets
  obtain ⟨key, declaration, ⟨target, resolvesToo, rfl⟩, isDeclared, isAlias⟩ := meets.leads
  rw [resolves] at resolvesToo
  exact noAlias target (Except.ok.inj resolvesToo) declaration isDeclared isAlias

theorem LeadsTo.meets_iff (leads : LeadsTo setting declared document reference key declaration)
    (unknown : key ∉ resolving) : Meets setting declared resolving document reference ↔
      ∃ inner ∈ declaration.references setting,
        Meets setting declared (resolving ++ [key]) declaration.document inner := by
  constructor
  · intro meets
    cases meets with
    | circle leadsToo isFollowed =>
        obtain ⟨rfl, -⟩ := leads.unique leadsToo
        exact absurd isFollowed unknown
    | through leadsToo _ occurs meets =>
        obtain ⟨rfl, rfl⟩ := leads.unique leadsToo
        exact ⟨_, occurs, meets⟩
  · rintro ⟨inner, occurs, meets⟩
    exact .through leads unknown occurs meets

theorem LeadsTo.aliasRefers {inner : Reference} {other : Key} {target : Declaration}
    (leads : LeadsTo setting declared document reference key declaration)
    (occurs : inner ∈ declaration.references setting)
    (leadsOn : LeadsTo setting declared declaration.document inner other target) :
    AliasRefers setting declared key other :=
  ⟨declaration, leads.isDeclared, leads.isAlias, inner, occurs, target, leadsOn⟩

/-- From an alias that reaches a cycle there is a step to another one that does. -/
theorem ReachesCycle.next (reaches : ReachesCycle setting declared key) :
    ∃ other, AliasRefers setting declared key other ∧ ReachesCycle setting declared other := by
  obtain ⟨last, path, cycle⟩ := reaches
  rcases path.cases_head with rfl | ⟨other, refers, rest⟩
  · obtain ⟨other, refers, rest⟩ := Relation.TransGen.head'_iff.mp cycle
    exact ⟨other, refers, key, rest, cycle⟩
  · exact ⟨other, refers, last, rest, cycle⟩

/-- The aliases that are being followed lead from one to the next, so that coming upon one of them
again closes a cycle. -/
theorem Meets.reachesCycle (meets : Meets setting declared resolving document reference) :
    ∃ key declaration, LeadsTo setting declared document reference key declaration ∧
      ((∀ followed ∈ resolving, Relation.TransGen (AliasRefers setting declared) followed key) →
        ReachesCycle setting declared key) := by
  induction meets with
  | circle leads isFollowed =>
      exact ⟨_, _, leads, fun paths => ⟨_, .refl, paths _ isFollowed⟩⟩
  | through leads unknown occurs meets ih =>
      obtain ⟨other, target, leadsOn, closes⟩ := ih
      have refers := leads.aliasRefers occurs leadsOn
      refine ⟨_, _, leads, fun paths => ?_⟩
      obtain ⟨last, path, cycle⟩ := closes fun followed isFollowed => by
        rcases List.mem_append.mp isFollowed with earlier | isLast
        · exact (paths followed earlier).tail refers
        · exact List.mem_singleton.mp isLast ▸ .single refers
      exact ⟨last, .head refers path, cycle⟩

/-- As long as a cycle can be reached there is a further alias, but there are only so many. -/
theorem ReachesCycle.meets {depth : Nat} (guarded : Guarded declared depth resolving)
    (leads : LeadsTo setting declared document reference key declaration)
    (reaches : ReachesCycle setting declared key) :
    Meets setting declared resolving document reference := by
  induction depth generalizing resolving document reference key declaration with
  | zero =>
      by_cases isFollowed : key ∈ resolving
      · exact .circle leads isFollowed
      · obtain ⟨_, isZero, -⟩ := guarded.next leads.isDeclared isFollowed
        cases isZero
  | succ depth ih =>
      by_cases isFollowed : key ∈ resolving
      · exact .circle leads isFollowed
      · obtain ⟨_, same, guardedOn⟩ := guarded.next leads.isDeclared isFollowed
        cases same
        obtain ⟨other, ⟨source, isDeclared, -, inner, occurs, target, leadsOn⟩, reachesOn⟩ :=
          reaches.next
        obtain rfl : declaration = source :=
          Option.some.inj (leads.isDeclared.symm.trans isDeclared)
        exact .through leads isFollowed occurs (ih guardedOn leadsOn reachesOn)

theorem meets_iff : Meets setting declared [] document reference ↔
    ∃ key declaration, LeadsTo setting declared document reference key declaration ∧
      ReachesCycle setting declared key := by
  constructor
  · intro meets
    obtain ⟨key, declaration, leads, closes⟩ := meets.reachesCycle
    exact ⟨key, declaration, leads, closes (by simp)⟩
  · rintro ⟨key, declaration, leads, reaches⟩
    exact reaches.meets (guarded_nil declared) leads

end Walks

end Analysis

end Typeloom
