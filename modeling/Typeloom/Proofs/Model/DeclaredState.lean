import Typeloom.Proofs.Model.Declarations

/-!
# The state in which everything is declared

When roots and definitions are declared one after the other without an error, the state holds one
declaration for each of them that is not left out, and the names of those that become classes or
enums.  Conversely they are declared without an error if none of these names is empty and all of
them, and the keys, are different.
-/

namespace Typeloom

namespace Analysis

open Reporting

/-- Whether a root or definition is left out of the model. -/
def isLeftOut (request : Request) (named : NamedNode) : Bool :=
  isListed named.key request.ignoredClasses ||
    isListed (Naming.pascalCase named.name) request.ignoredClasses

def kept (request : Request) (items : List NamedNode) : List NamedNode :=
  items.filter fun named => !isLeftOut request named

/-- The name that a root or definition takes, with its source, unless it is an alias. -/
def ownName (request : Request) (named : NamedNode) : Table String String :=
  let declaration := declarationOf request named
  if declaration.kind = .alias then [] else [(declaration.name, declaration.source)]

/-- The state in which roots and definitions are declared and nothing else has been done. -/
def declaredState (request : Request) (items : List NamedNode) : State where
  declarations := items.map fun named => (keyOf named, declarationOf request named)
  names := items.flatMap (ownName request)

/-- Whether roots and definitions can be declared together. -/
structure AreDeclarable (request : Request) (items : List NamedNode) : Prop where
  named : ∀ named ∈ items, Naming.pascalCase named.name ≠ ""
  keys : (items.map keyOf).Nodup
  names : (Table.keys (items.flatMap (ownName request))).Nodup

variable {request : Request} {items : List NamedNode} {named : NamedNode}

theorem areDeclarable_nil (request : Request) : AreDeclarable request [] :=
  ⟨by simp, List.nodup_nil, List.nodup_nil⟩

theorem declareNamed_of_isLeftOut (leftOut : isLeftOut request named = true) :
    declareNamed request named = pure () :=
  if_pos leftOut

theorem ownName_of_alias (isAlias : (declarationOf request named).kind = .alias) :
    ownName request named = [] :=
  if_pos isAlias

theorem ownName_of_ne_alias (builds : (declarationOf request named).kind ≠ .alias) :
    ownName request named =
      [(Naming.pascalCase named.name, (declarationOf request named).source)] :=
  if_neg builds

/-- Without an error, what is not left out has a name that is not taken. -/
theorem clean_isFree (notLeftOut : isLeftOut request named = false) (state : State) :
    EnsuresClean (declareNamed request named) state fun _ _ =>
      Naming.pascalCase named.name ≠ "" ∧
        (Table.keys state.names).Disjoint (Table.keys (ownName request named)) := by
  unfold declareNamed declare
  dsimp only
  rw [if_neg (Bool.not_eq_true _ ▸ notLeftOut)]
  split
  next => exact clean_bind (steady_reportAt ..) steady_pure clean_error
  next nonempty =>
    have hasName : Naming.pascalCase named.name ≠ "" := by simpa using nonempty
    refine clean_get ?_
    split
    next builds =>
      rw [ownName_of_ne_alias builds]
      split
      next => exact clean_bind (steady_reportAt ..) steady_pure clean_error
      next isFree =>
        exact fun _ _ _ _ _ _ =>
          ⟨hasName, List.disjoint_singleton.mpr (Table.get?_eq_none_iff.mp isFree)⟩
    next isAlias =>
      rw [ownName_of_alias (not_not.mp isAlias)]
      exact fun _ _ _ _ _ _ => ⟨hasName, List.disjoint_nil_right _⟩

/-- What has a name that is not taken is declared, and nothing is reported. -/
theorem onChannel_declareNamed (notLeftOut : isLeftOut request named = false)
    (hasName : Naming.pascalCase named.name ≠ "") {state : State}
    (unknown : keyOf named ∉ Table.keys state.declarations)
    (isFree : (Table.keys state.names).Disjoint (Table.keys (ownName request named)))
    (channel : Channel) :
    onChannel ((declareNamed request named).run state) channel =
      (.ok ((), { state with
        declarations := state.declarations ++ [(keyOf named, declarationOf request named)]
        names := state.names ++ ownName request named }), channel) := by
  have nonempty : ¬(Naming.pascalCase named.name).isEmpty = true := by simpa using hasName
  rw [← Table.set_of_not_contains _ unknown]
  unfold declareNamed declare
  dsimp only
  rw [if_neg (Bool.not_eq_true _ ▸ notLeftOut), if_neg nonempty]
  change onChannel ((if (declarationOf request named).kind ≠ .alias then _ else _ : Step Unit).run
    state) channel = _
  by_cases isAlias : (declarationOf request named).kind = .alias
  · rw [if_neg (not_not.mpr isAlias), ownName_of_alias isAlias, List.append_nil]
    rfl
  · rw [ownName_of_ne_alias isAlias] at isFree ⊢
    have notTaken : Naming.pascalCase named.name ∉ Table.keys state.names :=
      List.disjoint_singleton.mp isFree
    rw [if_pos isAlias, Table.get?_eq_none_iff.mpr notTaken,
      ← Table.set_of_not_contains _ notTaken]
    rfl

/-! ## Everything together -/

theorem keys_declarations (request : Request) (items : List NamedNode) :
    Table.keys (declaredState request items).declarations = items.map keyOf := by
  simp [declaredState, Table.keys, Function.comp_def]

theorem values_declarations (request : Request) (items : List NamedNode) :
    Table.values (declaredState request items).declarations =
      items.map (declarationOf request) := by
  simp [declaredState, Table.values, Function.comp_def]

theorem declaredState_concat (request : Request) (done : List NamedNode) (named : NamedNode) :
    declaredState request (done ++ [named]) =
      { declaredState request done with
        declarations := (declaredState request done).declarations ++
          [(keyOf named, declarationOf request named)]
        names := (declaredState request done).names ++ ownName request named } := by
  simp [declaredState]

theorem areDeclarable_concat {done : List NamedNode} :
    AreDeclarable request (done ++ [named]) ↔
      AreDeclarable request done ∧ Naming.pascalCase named.name ≠ "" ∧
        keyOf named ∉ Table.keys (declaredState request done).declarations ∧
        (Table.keys (declaredState request done).names).Disjoint
          (Table.keys (ownName request named)) := by
  have ownNodup : (Table.keys (ownName request named)).Nodup := by
    by_cases isAlias : (declarationOf request named).kind = .alias
    · rw [ownName_of_alias isAlias]
      exact List.nodup_nil
    · rw [ownName_of_ne_alias isAlias]
      exact List.nodup_singleton _
  have names : Table.keys ((done ++ [named]).flatMap (ownName request)) =
      Table.keys (declaredState request done).names ++ Table.keys (ownName request named) := by
    simp [declaredState, Table.keys]
  constructor
  · rintro ⟨haveNames, keys, nodup⟩
    rw [names, List.nodup_append'] at nodup
    rw [List.map_append, List.nodup_append'] at keys
    rw [List.forall_mem_append] at haveNames
    refine ⟨⟨haveNames.1, keys.1, nodup.1⟩, by simpa using haveNames.2, ?_, nodup.2.2⟩
    rw [keys_declarations]
    exact List.disjoint_singleton.mp keys.2.2
  · rintro ⟨⟨haveNames, keys, nodup⟩, hasName, unknown, isFree⟩
    rw [keys_declarations] at unknown
    refine ⟨?_, ?_, ?_⟩
    · rw [List.forall_mem_append]
      exact ⟨haveNames, by simpa using hasName⟩
    · rw [List.map_append, List.nodup_append']
      exact ⟨keys, List.nodup_singleton _, List.disjoint_singleton.mpr unknown⟩
    · rw [names, List.nodup_append']
      exact ⟨nodup, ownNodup, isFree⟩

theorem AreDeclarable.of_append {first rest : List NamedNode}
    (declarable : AreDeclarable request (first ++ rest)) : AreDeclarable request first where
  named := (List.forall_mem_append.mp declarable.named).1
  keys := by
    have keys := declarable.keys
    rw [List.map_append] at keys
    exact keys.of_append_left
  names := by
    have names := declarable.names
    rw [List.flatMap_append, Table.keys, List.map_append] at names
    exact names.of_append_left

/-- What can be declared together is declared, and nothing is reported. -/
theorem onChannel_declareAll (items : List NamedNode) {done : List NamedNode}
    (declarable : AreDeclarable request (done ++ kept request items)) (channel : Channel) :
    onChannel ((items.forM (declareNamed request)).run (declaredState request done)) channel =
      (.ok ((), declaredState request (done ++ kept request items)), channel) := by
  induction items generalizing done with
  | nil => rw [kept, List.filter_nil, List.append_nil]; rfl
  | cons named rest ih =>
      change onChannel ((declareNamed request named >>= fun _ =>
        rest.forM (declareNamed request)).run _) channel = _
      cases leftOut : isLeftOut request named with
      | true =>
          have skips : kept request (named :: rest) = kept request rest := by simp [kept, leftOut]
          rw [skips] at declarable ⊢
          rw [declareNamed_of_isLeftOut leftOut]
          exact ih declarable
      | false =>
          have takes : done ++ kept request (named :: rest) =
              done ++ [named] ++ kept request rest := by simp [kept, leftOut]
          rw [takes] at declarable ⊢
          obtain ⟨-, hasName, unknown, isFree⟩ := areDeclarable_concat.mp declarable.of_append
          rw [StateT.run_bind, onChannel_bind,
            onChannel_declareNamed leftOut hasName unknown isFree, ← declaredState_concat]
          exact ih declarable

/-- If no error is reported, whatever is not left out could be declared together, and has been. -/
theorem clean_areDeclarable {items : List NamedNode}
    (differ : items.Pairwise fun left right => keyOf left = keyOf right →
      Naming.pascalCase left.name = "" ∨ Naming.pascalCase right.name = "") :
    EnsuresClean (items.forM (declareNamed request)) {} fun _ after =>
      AreDeclarable request (kept request items) ∧
        after = declaredState request (kept request items) := by
  have steady (named : NamedNode) : Steady (declareNamed request named) :=
    (consists_declare ..).steady
  refine (clean_forM
    (fun rest after => ∃ done, items = done ++ rest ∧ AreDeclarable request (kept request done) ∧
      after = declaredState request (kept request done))
    steady ⟨[], rfl, areDeclarable_nil request, rfl⟩ ?keeps).mono ?ends
  case ends =>
    rintro _ after ⟨done, rfl, declarable, same⟩
    rw [List.append_nil]
    exact ⟨declarable, same⟩
  case keeps =>
    rintro named rest _ - ⟨done, rfl, declarable, rfl⟩ channel _ after channel' ran noError
    refine ⟨done ++ [named], List.append_cons .., ?_⟩
    cases leftOut : isLeftOut request named with
    | true =>
        have skips : kept request (done ++ [named]) = kept request done := by simp [kept, leftOut]
        rw [declareNamed_of_isLeftOut leftOut] at ran
        cases ran
        exact skips.symm ▸ ⟨declarable, rfl⟩
    | false =>
        have takes : kept request (done ++ [named]) = kept request done ++ [named] := by
          simp [kept, leftOut]
        obtain ⟨hasName, isFree⟩ := clean_isFree leftOut _ ran noError
        have unknown : keyOf named ∉
            Table.keys (declaredState request (kept request done)).declarations := by
          rw [keys_declarations]
          intro known
          obtain ⟨other, isKept, same⟩ := List.mem_map.mp known
          have apart := (List.pairwise_append.mp differ).2.2 other (List.mem_of_mem_filter isKept)
            named List.mem_cons_self same
          exact apart.elim (declarable.named other isKept) hasName
        rw [onChannel_declareNamed leftOut hasName unknown isFree, ← declaredState_concat] at ran
        cases ran
        rw [takes]
        exact ⟨areDeclarable_concat.mpr ⟨declarable, hasName, unknown, isFree⟩, rfl⟩

/-- Whether roots and definitions are declared under their keys and with names. -/
def AreDeclared (request : Request) (items : List NamedNode) (declared : Table Key Declaration) :
    Prop :=
  ∀ named ∈ items, Naming.pascalCase named.name ≠ "" ∧
    Table.get? declared (keyOf named) = some (declarationOf request named)

/-- If nothing is left out and no error is reported, all roots and definitions are declared. -/
theorem clean_declareAll (nothingIgnored : request.ignoredClasses = []) {library : Library}
    (distinct : library.DistinctNames) :
    EnsuresClean (library.namedNodes.forM (declareNamed request)) {} fun _ after =>
      AreDeclared request library.namedNodes after.declarations := by
  have allKept : kept request library.namedNodes = library.namedNodes :=
    List.filter_eq_self.mpr fun named _ => by simp [isLeftOut, isListed, nothingIgnored]
  refine (clean_areDeclarable (keys_differ distinct)).mono ?_
  rintro _ _ ⟨declarable, rfl⟩ named occurs
  rw [allKept] at declarable ⊢
  have keys := declarable.keys
  rw [← keys_declarations request] at keys
  exact ⟨declarable.named named occurs,
    (Table.get?_eq_some_iff keys).mpr (List.mem_map.mpr ⟨named, occurs, rfl⟩)⟩

end Analysis

end Typeloom
