import Typeloom.Proofs.Model.Beginnings
import Typeloom.Proofs.Model.DeclaredState
import Typeloom.Proofs.Report.Scripted

/-!
# Who takes a name

The roots and definitions are declared one after the other, and a name is taken by the first of them
that asks for it.  So whether one of them is declared, and what is reported about it, depends only
on those that stand before it.
-/

namespace Typeloom

namespace Analysis

open Reporting

variable (request : Request)

/-- Whether a root or definition asks for a name as a class or an enum. -/
def asksFor (name : String) (named : NamedNode) : Bool :=
  !isLeftOut request named && (declarationOf request named).kind ≠ .alias &&
    Naming.pascalCase named.name = name

/-- The first of some roots and definitions that asks for the name of a further one. -/
def holder? (earlier : List NamedNode) (named : NamedNode) : Option NamedNode :=
  earlier.find? (asksFor request (Naming.pascalCase named.name))

/-- Whether a root or definition is declared after some others. -/
def isDeclared (earlier : List NamedNode) (named : NamedNode) : Bool :=
  !isLeftOut request named && Naming.pascalCase named.name ≠ "" &&
    ((declarationOf request named).kind = .alias || (holder? request earlier named).isNone)

/-- Those of some roots and definitions that are declared after others. -/
def declaredAmong : List NamedNode → List NamedNode → List NamedNode
  | _, [] => []
  | earlier, named :: rest =>
      let later := declaredAmong (earlier ++ [named]) rest
      if isDeclared request earlier named then named :: later else later

/-- The report that a root or definition has no name. -/
def namelessReport (named : NamedNode) : Diagnostic :=
  noticeAt .error ("cannot derive a class name from '" ++ named.name ++ "'")
    named.document.systemId named.node.pointer

/-- The report that the name of a root or definition is taken by another one. -/
def collisionReport (holder named : NamedNode) : Diagnostic :=
  noticeAt .error
    ("class name '" ++ Naming.pascalCase named.name ++ "' collides with the declaration at " ++
      (holder.document.systemId ++ holder.node.pointer))
    named.document.systemId named.node.pointer

/-- The report that no class is made of a root or definition. -/
def aliasReport (named : NamedNode) : Diagnostic :=
  noticeAt .info
    ("definition '" ++ named.key ++ "' is an alias of a built-in type; no class is generated")
    named.document.systemId named.node.pointer

/-- What is reported when a root or definition is declared after some others. -/
def declaring (earlier : List NamedNode) (named : NamedNode) : Transcript :=
  if isLeftOut request named then []
  else if Naming.pascalCase named.name = "" then [.notify (namelessReport named)]
  else if (declarationOf request named).kind = .alias then []
  else
    match holder? request earlier named with
    | some holder => [.notify (collisionReport holder named)]
    | none => []

variable {request}

theorem declaredAmong_concat (earlier items : List NamedNode) (named : NamedNode) :
    declaredAmong request earlier (items ++ [named]) =
      declaredAmong request earlier items ++
        if isDeclared request (earlier ++ items) named then [named] else [] := by
  induction items generalizing earlier with
  | nil => simp [declaredAmong]
  | cons item items ih =>
      simp only [List.cons_append, declaredAmong, ih, List.append_assoc]
      split <;> rfl

/-- What a root or definition that is declared takes: its name if it asks for it. -/
theorem lookup_ownName {name : String} (nonempty : name ≠ "") {earlier : List NamedNode}
    (isFree : earlier.find? (asksFor request name) = none) (named : NamedNode) :
    (if isDeclared request earlier named then ownName request named else []).lookup name =
      if asksFor request name named then some (declarationOf request named).source else none := by
  by_cases asks : asksFor request name named = true
  · rw [if_pos asks]
    simp only [asksFor, Bool.and_eq_true, Bool.not_eq_true', decide_eq_true_eq] at asks
    obtain ⟨⟨notLeftOut, builds⟩, rfl⟩ := asks
    have declared : isDeclared request earlier named = true := by
      simp [isDeclared, notLeftOut, nonempty, holder?, isFree]
    rw [if_pos declared, ownName_of_ne_alias builds]
    simp
  · rw [if_neg asks]
    split
    · rename_i declared
      by_cases isAlias : (declarationOf request named).kind = .alias
      · rw [ownName_of_alias isAlias]
        rfl
      · rw [ownName_of_ne_alias isAlias]
        have notLeftOut : isLeftOut request named = false := by
          simp only [isDeclared, Bool.and_eq_true, Bool.not_eq_true'] at declared
          exact declared.1.1
        have differs : name ≠ Naming.pascalCase named.name := by
          rintro rfl
          simp [asksFor, notLeftOut, isAlias] at asks
        have unequal : (name == Naming.pascalCase named.name) = false := by simpa using differs
        simp [List.lookup_cons, unequal]
    · rfl

/-- A name is taken by the first root or definition that asks for it. -/
theorem get?_names_declaredAmong (request : Request) {name : String} (nonempty : name ≠ "")
    (done : List NamedNode) :
    Table.get? (declaredState request (declaredAmong request [] done)).names name =
      (done.find? (asksFor request name)).map fun holder =>
        (declarationOf request holder).source := by
  induction done using List.reverseRecOn with
  | nil => rfl
  | append_singleton done named ih =>
      have names : (declaredState request (declaredAmong request [] (done ++ [named]))).names =
          (declaredState request (declaredAmong request [] done)).names ++
            if isDeclared request done named then ownName request named else [] := by
        rw [declaredAmong_concat, List.nil_append]
        split <;> simp [declaredState]
      rw [names, Table.get?, List.lookup_append, ← Table.get?, ih, List.find?_append]
      cases isFree : done.find? (asksFor request name) with
      | some holder => rfl
      | none =>
          rw [lookup_ownName nonempty isFree]
          cases asks : asksFor request name named <;> simp [asks]

theorem of_mem_declaredAmong {earlier items : List NamedNode} {named : NamedNode}
    (occurs : named ∈ declaredAmong request earlier items) :
    named ∈ items ∧ Naming.pascalCase named.name ≠ "" := by
  induction items generalizing earlier with
  | nil => cases occurs
  | cons item items ih =>
      rw [declaredAmong] at occurs
      split at occurs
      · rename_i declared
        rcases List.mem_cons.mp occurs with rfl | later
        · simp only [isDeclared, Bool.and_eq_true, decide_eq_true_eq] at declared
          exact ⟨List.mem_cons_self, declared.1.2⟩
        · exact ⟨List.mem_cons_of_mem _ (ih later).1, (ih later).2⟩
      · exact ⟨List.mem_cons_of_mem _ (ih occurs).1, (ih occurs).2⟩

theorem ends_reportAt (severity : Severity) (message systemId pointer : String) (state : State) :
    Ends ((do reportAt severity message systemId pointer; return : Step Unit).run state)
      [.notify (noticeAt severity message systemId pointer)] (.ok ((), state)) := by
  have reports : Ends ((reportAt severity message systemId pointer).run state)
      [.notify (noticeAt severity message systemId pointer)] (.ok ((), state)) := by
    change Ends (notify _ >>= fun value => pure (value, state)) _ _
    exact (ends_notify _).bind_last (ends_pure _)
  rw [StateT.run_bind]
  exact reports.bind_last (ends_pure _)

section Declaring

variable {done : List NamedNode} {named : NamedNode}

theorem ends_declareNamed_nameless (notLeftOut : isLeftOut request named = false)
    (isEmpty : Naming.pascalCase named.name = "") (state : State) :
    Ends ((declareNamed request named).run state) [.notify (namelessReport named)]
      (.ok ((), state)) := by
  unfold declareNamed declare
  dsimp only
  rw [if_neg (Bool.not_eq_true _ ▸ notLeftOut), if_pos (by simpa using isEmpty)]
  exact ends_reportAt _ _ _ _ _

theorem ends_declareNamed_collision (notLeftOut : isLeftOut request named = false)
    (nonempty : Naming.pascalCase named.name ≠ "")
    (builds : (declarationOf request named).kind ≠ .alias) {state : State} {holder : NamedNode}
    (taken : Table.get? state.names (Naming.pascalCase named.name) =
      some (declarationOf request holder).source) :
    Ends ((declareNamed request named).run state) [.notify (collisionReport holder named)]
      (.ok ((), state)) := by
  unfold declareNamed declare
  dsimp only
  rw [if_neg (Bool.not_eq_true _ ▸ notLeftOut), if_neg (by simpa using nonempty)]
  change Ends ((if (declarationOf request named).kind ≠ .alias then _ else _ : Step Unit).run
    state) _ _
  rw [if_pos builds, taken]
  exact ends_reportAt _ _ _ _ _

/-- Declaring a root or definition after others takes account of these others only. -/
theorem ends_declareNamed
    (apart : ∀ other ∈ done, keyOf other = keyOf named →
      Naming.pascalCase other.name = "" ∨ Naming.pascalCase named.name = "") :
    Ends ((declareNamed request named).run
        (declaredState request (declaredAmong request [] done)))
      (declaring request done named)
      (.ok ((), declaredState request (declaredAmong request [] (done ++ [named])))) := by
  rw [declaredAmong_concat, List.nil_append]
  unfold declaring
  cases leftOut : isLeftOut request named with
  | true =>
      rw [declareNamed_of_isLeftOut leftOut]
      simpa [isDeclared, leftOut] using ends_pure _
  | false =>
      rw [if_neg Bool.false_ne_true]
      by_cases isEmpty : Naming.pascalCase named.name = ""
      · have notDeclared : isDeclared request done named = false := by simp [isDeclared, isEmpty]
        rw [if_pos isEmpty, notDeclared, if_neg Bool.false_ne_true, List.append_nil]
        exact ends_declareNamed_nameless leftOut isEmpty _
      · have taken := get?_names_declaredAmong request isEmpty done
        have unknown : keyOf named ∉ Table.keys
            (declaredState request (declaredAmong request [] done)).declarations := by
          rw [keys_declarations]
          intro known
          obtain ⟨other, occurs, same⟩ := List.mem_map.mp known
          obtain ⟨isEarlier, hasName⟩ := of_mem_declaredAmong occurs
          exact (apart other isEarlier same).elim hasName isEmpty
        have declares (declared : isDeclared request done named = true)
            (isFree : (Table.keys
              (declaredState request (declaredAmong request [] done)).names).Disjoint
                (Table.keys (ownName request named))) :
            Ends ((declareNamed request named).run
                (declaredState request (declaredAmong request [] done))) []
              (.ok ((), declaredState request (declaredAmong request [] done ++
                if isDeclared request done named then [named] else []))) := by
          rw [if_pos declared, declaredState_concat]
          exact fun channel => onChannel_declareNamed leftOut isEmpty unknown isFree channel
        rw [if_neg isEmpty]
        by_cases isAlias : (declarationOf request named).kind = .alias
        · rw [if_pos isAlias]
          apply declares
          · simp [isDeclared, leftOut, isEmpty, isAlias]
          · simp [ownName_of_alias isAlias, Table.keys]
        · rw [if_neg isAlias]
          cases holds : holder? request done named with
          | some holder =>
              have notDeclared : isDeclared request done named = false := by
                simp [isDeclared, isAlias, holds]
              rw [notDeclared, if_neg Bool.false_ne_true, List.append_nil]
              rw [holder?] at holds
              rw [holds] at taken
              exact ends_declareNamed_collision leftOut isEmpty isAlias taken
          | none =>
              apply declares
              · simp [isDeclared, leftOut, isEmpty, holds]
              · rw [holder?] at holds
                rw [holds] at taken
                rw [ownName_of_ne_alias isAlias]
                exact List.disjoint_singleton.mpr (Table.get?_eq_none_iff.mp taken)

end Declaring

/-- What is reported when roots and definitions are declared after some others. -/
def declaringAll (request : Request) : List NamedNode → List NamedNode → Transcript
  | _, [] => []
  | earlier, named :: rest =>
      declaring request earlier named ++ declaringAll request (earlier ++ [named]) rest

theorem ends_declareAll (items : List NamedNode) {done : List NamedNode}
    (differ : (done ++ items).Pairwise fun left right => keyOf left = keyOf right →
      Naming.pascalCase left.name = "" ∨ Naming.pascalCase right.name = "") :
    Ends ((items.forM (declareNamed request)).run
        (declaredState request (declaredAmong request [] done)))
      (declaringAll request done items)
      (.ok ((), declaredState request (declaredAmong request [] (done ++ items)))) := by
  induction items generalizing done with
  | nil =>
      rw [List.append_nil]
      exact ends_pure _
  | cons named rest ih =>
      rw [List.append_cons] at differ ⊢
      have apart : ∀ other ∈ done, keyOf other = keyOf named →
          Naming.pascalCase other.name = "" ∨ Naming.pascalCase named.name = "" := by
        intro other isEarlier
        have first := (List.pairwise_append.mp differ).1
        exact (List.pairwise_append.mp first).2.2 other isEarlier named (List.mem_singleton_self _)
      change Ends ((declareNamed request named >>= fun _ =>
        rest.forM (declareNamed request)).run _) _ _
      rw [StateT.run_bind]
      exact (ends_declareNamed apart).bind (ih differ)

end Analysis

end Typeloom
