import Mathlib.Data.List.Perm.Subperm
import Typeloom.ContentModel.OfSchema
import Typeloom.Proofs.Schema.Targets

/-!
# Chains of bases

An object may be derived from another one, which may be derived from a third one, and so on.  The
objects on the way, the outermost base first, are described without a bound on the way.  The way
always ends, since it stops at the first place that is on it already, and the content model of a
node runs through the objects on its way one after the other.
-/

namespace Typeloom

namespace ContentModel

/-- The objects that a node at a place is made of, the outermost base first, or the fault at the
first reference on the way that cannot be read.  The nodes at the places in the list are derived
from the node. -/
inductive BaseChain (library : Library) :
    List Address → Address → Node → Except Fault (List (Body Node)) → Prop where
  /-- A place that is on the way already adds nothing. -/
  | again {visiting : List Address} {address : Address} (node : Node)
      (known : address ∈ visiting) : BaseChain library visiting address node (.ok [])
  | object {visiting : List Address} {address : Address} (body : Body Node)
      (new : address ∉ visiting) : BaseChain library visiting address (.object body) (.ok [body])
  /-- Neither an object nor derived from one. -/
  | other {visiting : List Address} {address : Address} {node : Node}
      (new : address ∉ visiting) (plain : node.isObject = false) :
      BaseChain library visiting address node (.ok [])
  | underived {visiting : List Address} {address : Address} (info : NodeInfo)
      (extension : Option (Body Node)) (new : address ∉ visiting) :
      BaseChain library visiting address (.allOf info none extension) (.ok extension.toList)
  /-- A base that does not exist adds nothing. -/
  | dangling {visiting : List Address} {address : Address} (info : NodeInfo)
      {reference : Reference} (extension : Option (Body Node)) (new : address ∉ visiting)
      (resolves : library.resolve address.document reference = .ok none) :
      BaseChain library visiting address (.allOf info (some reference) extension)
        (.ok extension.toList)
  | unreadable {visiting : List Address} {address : Address} (info : NodeInfo)
      {reference : Reference} {fault : Fault} (extension : Option (Body Node))
      (new : address ∉ visiting)
      (resolves : library.resolve address.document reference = .error fault) :
      BaseChain library visiting address (.allOf info (some reference) extension) (.error fault)
  | derived {visiting : List Address} {address : Address} (info : NodeInfo)
      {reference : Reference} {target : Target} {inherited : Except Fault (List (Body Node))}
      (extension : Option (Body Node)) (new : address ∉ visiting)
      (resolves : library.resolve address.document reference = .ok (some target))
      (further : BaseChain library (address :: visiting) target.address target.node inherited) :
      BaseChain library visiting address (.allOf info (some reference) extension)
        (inherited.map (· ++ extension.toList))

/-! ## The content model of a chain -/

@[simp]
theorem epsilon_append (expression : Expression) :
    Expression.epsilon.append expression = expression := by
  cases expression <;> rfl

@[simp]
theorem append_epsilon (expression : Expression) :
    expression.append .epsilon = expression := by
  cases expression <;> rfl

/-- The content model of objects one after the other. -/
def ofBodies (bodies : List (Body Node)) : Expression :=
  Expression.sequenceOf (bodies.map ofBody)

theorem ofBodies_append (bodies : List (Body Node)) (extension : Option (Body Node)) :
    ofBodies (bodies ++ extension.toList) =
      Expression.sequenceOf [ofBodies bodies, (extension.map ofBody).getD .epsilon] := by
  cases extension <;> simp [ofBodies, Expression.sequenceOf]

theorem ofBodies_toList (extension : Option (Body Node)) :
    ofBodies extension.toList =
      Expression.sequenceOf [.epsilon, (extension.map ofBody).getD .epsilon] :=
  ofBodies_append [] extension

/-! ## The elements of a content model -/

theorem elements_sequenceOf (expressions : List Expression) :
    (Expression.sequenceOf expressions).elements = expressions.flatMap Expression.elements := by
  have appended (left right : Expression) :
      (left.append right).elements = left.elements ++ right.elements := by
    cases left <;> cases right <;> simp [Expression.append, Expression.elements]
  have folded (before : Expression) (expressions : List Expression) :
      (expressions.foldl Expression.append before).elements =
        before.elements ++ expressions.flatMap Expression.elements := by
    induction expressions generalizing before with
    | nil => simp
    | cons expression expressions ih => simp [ih, appended]
  simpa [Expression.sequenceOf, Expression.elements] using folded .epsilon expressions

theorem elements_ofProperty (property : Property Node) :
    (ofProperty property).elements = [⟨0, property.name⟩] := by
  have optional (expression : Expression) : expression.optional.elements = expression.elements := by
    unfold Expression.optional
    split <;> simp [Expression.elements]
  obtain ⟨info, name, type, required, default?⟩ := property
  cases type <;> simp [ofProperty, apply_ite Expression.elements, optional, Expression.elements]

/-- The elements of a content model have the names of the properties, in their order. -/
theorem map_name_elements_ofBodies (bodies : List (Body Node)) :
    (ofBodies bodies).elements.map Element.name =
      (bodies.flatMap Body.properties).map Property.name := by
  simp [ofBodies, ofBody, elements_sequenceOf, elements_ofProperty, List.flatMap_map,
    List.map_flatMap, ← List.map_eq_flatMap, Function.comp_def]

/-! ## The way ends -/

/-- The places that a walk from a place can come across. -/
def places (library : Library) (start : Address) : List Address :=
  start :: library.namedNodes.map NamedNode.address

/-- A walk that is at a place and has come through others may go on for so many steps that it
meets a place again before. -/
structure Bounded (library : Library) (start : Address) (depth : Nat) (visiting : List Address)
    (address : Address) : Prop where
  distinct : visiting.Nodup
  within : visiting ⊆ places library start
  inside : address ∈ places library start
  enough : (places library start).length ≤ visiting.length + depth

section Bounded

variable {library : Library} {start address : Address} {visiting : List Address} {depth : Nat}

theorem bounded_start (library : Library) (start : Address) :
    Bounded library start (library.namedNodes.length + 1) [] start :=
  ⟨List.nodup_nil, List.nil_subset _, List.mem_cons_self, by simp [places]⟩

/-- A walk that may not go on has been everywhere. -/
theorem Bounded.mem_visiting (bounded : Bounded library start 0 visiting address) :
    address ∈ visiting := by
  have everywhere : visiting.Perm (places library start) :=
    (List.subperm_of_subset bounded.distinct bounded.within).perm_of_length_le bounded.enough
  exact everywhere.mem_iff.mpr bounded.inside

theorem Bounded.exists_succ (bounded : Bounded library start depth visiting address)
    (new : address ∉ visiting) : ∃ further, depth = further + 1 :=
  Nat.exists_eq_succ_of_ne_zero fun stops => new (stops ▸ bounded).mem_visiting

theorem Bounded.next (bounded : Bounded library start (depth + 1) visiting address)
    (new : address ∉ visiting) {reference : Reference} {target : Target}
    (resolves : library.resolve address.document reference = .ok (some target)) :
    Bounded library start depth (address :: visiting) target.address where
  distinct := List.nodup_cons.mpr ⟨new, bounded.distinct⟩
  within := List.cons_subset.mpr ⟨bounded.inside, bounded.within⟩
  inside := by
    obtain ⟨named, member, atTarget, -, -, -⟩ := Library.exists_namedNode_of_resolve resolves
    exact List.mem_cons_of_mem start (List.mem_map.mpr ⟨named, member, atTarget⟩)
  enough := by
    have enough := bounded.enough
    simp only [List.length_cons]
    omega

/-- Every node has a chain of bases. -/
theorem Bounded.exists_baseChain (bounded : Bounded library start depth visiting address)
    (node : Node) : ∃ outcome, BaseChain library visiting address node outcome := by
  induction depth generalizing visiting address node with
  | zero => exact ⟨_, .again node bounded.mem_visiting⟩
  | succ depth ih =>
      by_cases known : address ∈ visiting
      · exact ⟨_, .again node known⟩
      · match node with
        | .object body => exact ⟨_, .object body known⟩
        | .allOf info none extension => exact ⟨_, .underived info extension known⟩
        | .allOf info (some reference) extension =>
            match resolves : library.resolve address.document reference with
            | .error fault => exact ⟨_, .unreadable info extension known resolves⟩
            | .ok none => exact ⟨_, .dangling info extension known resolves⟩
            | .ok (some target) =>
                obtain ⟨inherited, further⟩ := ih (bounded.next known resolves) target.node
                exact ⟨_, .derived info extension known resolves further⟩
        | .primitive _ _ | .const _ _ _ | .enum _ _ _ _ | .ref _ | .array _ _ _ | .tuple _ _ _
        | .union _ _ _ => exact ⟨_, .other known rfl⟩

/-- The bounded walk from a node runs through its chain of bases. -/
theorem BaseChain.ofNode_eq {node : Node} {outcome : Except Fault (List (Body Node))}
    (chain : BaseChain library visiting address node outcome)
    (bounded : Bounded library start depth visiting address) :
    ofNode library depth visiting address node = outcome.map ofBodies := by
  induction chain generalizing depth with
  | again node known => cases depth <;> simp [ofNode, known] <;> rfl
  | object body new =>
      obtain ⟨depth, rfl⟩ := bounded.exists_succ new
      simp [ofNode, new, ofBodies, Expression.sequenceOf, Except.map]
  | @other visiting address node new plain =>
      obtain ⟨depth, rfl⟩ := bounded.exists_succ new
      cases node with
      | object body => cases plain
      | allOf info base extension => cases plain
      | _ => simp [ofNode, new]; rfl
  | underived info extension new =>
      obtain ⟨depth, rfl⟩ := bounded.exists_succ new
      simp [ofNode, new, ofBodies_toList, Except.map, bind, Except.bind, pure, Except.pure]
  | dangling info extension new resolves =>
      obtain ⟨depth, rfl⟩ := bounded.exists_succ new
      simp [ofNode, new, resolves, ofBodies_toList, Except.map, bind, Except.bind, pure,
        Except.pure]
  | unreadable info extension new resolves =>
      obtain ⟨depth, rfl⟩ := bounded.exists_succ new
      simp [ofNode, new, resolves, Except.map, bind, Except.bind]
  | derived info extension new resolves further ih =>
      rename_i inherited
      obtain ⟨depth, rfl⟩ := bounded.exists_succ new
      have walks := ih (bounded.next new resolves)
      cases inherited <;>
        simp [ofNode, new, resolves, walks, ofBodies_append, Except.map, bind, Except.bind, pure,
          Except.pure]

/-- The content model of a root or definition is that of its chain of bases. -/
theorem BaseChain.ofNamed_eq {named : NamedNode} {outcome : Except Fault (List (Body Node))}
    (chain : BaseChain library [] named.address named.node outcome) :
    ofNamed library named = outcome.map fun bodies => (ofBodies bodies).numbered := by
  rw [ofNamed, chain.ofNode_eq (bounded_start library named.address)]
  cases outcome <;> rfl

end Bounded

end ContentModel

end Typeloom
