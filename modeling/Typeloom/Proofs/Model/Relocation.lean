import Typeloom.Proofs.Model.DeclaredState
import Typeloom.Proofs.Model.Replay
import Typeloom.Proofs.Schema.Reordered

/-!
# Translation in a library in a different order

When the documents of a library and their definitions stand in a different order, the numbers of
documents change and nothing else does.  What is declared stays the same up to these numbers,
references resolve to the same keys, and so whatever is translated or built can be translated or
built again in the other library.
-/

namespace Typeloom

namespace Analysis

open Reporting Traced

/-- Whether a declaration is another one in a library in a different order. -/
structure Declaration.Moved (library other : Library) (declaration moved : Declaration) :
    Prop where
  address : library.SameAddress other declaration.document moved.document
  same : { declaration with document := moved.document } = moved

/-- Whether what is declared for a library is declared for one in a different order as well. -/
structure Relocation (setting elsewhere : Setting) (declared others : Table Key Declaration) :
    Prop where
  reordered : setting.library.Reordered elsewhere.library
  distinct : (setting.library.documents.map Document.systemId).Nodup
  request : elsewhere.request = setting.request
  declarations : ∀ key, Option.Rel (Declaration.Moved setting.library elsewhere.library)
    (Table.get? declared key) (Table.get? others key)

section Translation

variable {setting elsewhere : Setting} {declared others : Table Key Declaration}
  {resolving : List Key} {follow : Declaration → Traced TypeExpr}
  {followToo : List Key → Declaration → Step TypeExpr} {moved : Nat}

theorem Declaration.Moved.kind_eq {library other : Library} {declaration moved : Declaration}
    (isMoved : declaration.Moved library other moved) : moved.kind = declaration.kind := by
  rw [← isMoved.same]
  rfl

theorem Relocation.packageAt (relocation : Relocation setting elsewhere declared others)
    {document : Nat} (address : setting.library.SameAddress elsewhere.library document moved) :
    elsewhere.packageAt moved = setting.packageAt document := by
  obtain ⟨here, there, isHere, isThere, sameId⟩ := address
  have isReordered := relocation.reordered.of_systemId relocation.distinct
    (List.mem_of_getElem? isHere) (List.mem_of_getElem? isThere) sameId
  rw [Setting.packageAt, Setting.packageAt, isHere, isThere, relocation.request]
  simp only [packageOf, isReordered.package]

/-- Whether an alias that is not being followed yet can be followed again. -/
def ReplaysAliases (declared : Table Key Declaration) (resolving : List Key)
    (follow : Declaration → Traced TypeExpr) (others : Table Key Declaration)
    (followToo : List Key → Declaration → Step TypeExpr) : Prop :=
  ∀ ⦃key declaration same⦄, Table.get? declared key = some declaration →
    Table.get? others key = some same → key ∉ resolving →
      Replays declared (resolving ++ [key]) (follow declaration) others
        (followToo (resolving ++ [key]) same)

theorem orFault_ok_bind {α β : Type} (value : α) (next : α → Step β) :
    orFault (.ok value) >>= next = next value :=
  rfl

/-- The type for a reference that resolves to a key, by what is declared under it. -/
def typeUnder (follow : List Key → Declaration → Step TypeExpr) (resolving : List Key)
    (site : Site) (reference : Reference) (key : Key) : Option Declaration → Step TypeExpr
  | none => return .anything
  | some declaration =>
      match declaration.kind with
      | .classDefinition => return .instanceOf declaration.name
      | .enumDefinition => return .memberOf declaration.name
      | .alias =>
          if resolving.contains key then do
            reportAt .error ("circular reference '" ++ reference.target.inMessage ++ "'")
              site.systemId reference.info.pointer
            return .anything
          else follow (resolving ++ [key]) declaration

theorem translateReference_eq {site : Site} {reference : Reference} {target : Target}
    (isTarget : elsewhere.library.resolve site.document reference = .ok (some target)) :
    translateReference elsewhere followToo resolving site reference =
      get >>= fun state => typeUnder followToo resolving site reference target.place
        (Table.get? state.declarations target.place) := by
  rw [translateReference, isTarget, orFault_ok_bind]
  refine congrArg (get >>= ·) (funext fun state => ?_)
  rw [Target.place]
  cases Table.get? state.declarations (target.document.systemId, target.key) with
  | none => rfl
  | some declaration =>
      cases isKind : declaration.kind <;> simp only [typeUnder, isKind]

theorem replays_reference (relocation : Relocation setting elsewhere declared others)
    (aliases : ReplaysAliases declared resolving follow others followToo) (site : Site)
    (address : setting.library.SameAddress elsewhere.library site.document moved)
    (reference : Reference) :
    Replays declared resolving (tracedReference setting follow site reference) others
      (translateReference elsewhere followToo resolving { site with document := moved }
        reference) := by
  refine replays_translating _ _ (cleanly_orFault fun target? isTarget => ?_)
  have places := relocation.reordered.place_resolve relocation.distinct address reference
  rw [isTarget] at places
  cases target? with
  | none => exact cleanly_error ..
  | some target =>
      obtain ⟨there?, isThere, samePlace⟩ : ∃ there?,
          elsewhere.library.resolve moved reference = .ok there? ∧
            some target.place = there?.map Target.place := by
        cases found : elsewhere.library.resolve moved reference with
        | error fault => rw [found] at places; cases places
        | ok there? =>
            rw [found] at places
            exact ⟨there?, rfl, Except.ok.inj places⟩
      obtain ⟨there, rfl, sameKey⟩ := Option.map_eq_some_iff.mp samePlace.symm
      rw [translateReference_eq isThere, sameKey]
      refine replays_get (fun state same => by rw [same]) fun state same => ?_
      rw [same]
      have related := relocation.declarations target.place
      rw [Target.place] at related ⊢
      generalize isDeclared : Table.get? declared (target.document.systemId, target.key) = found?,
        isDeclaredToo : Table.get? others (target.document.systemId, target.key) = same?
        at related ⊢
      cases related with
      | none => exact replays_pure _
      | @some declaration same isMoved =>
          rw [typeUnder, isMoved.kind_eq, ← isMoved.same]
          dsimp only
          cases declaration.kind with
          | classDefinition => exact replays_pure _
          | enumDefinition => exact replays_pure _
          | «alias» =>
              refine cleanly_current fun trace isFollowing => ?_
              rw [isFollowing]
              by_cases isFollowed : (target.document.systemId, target.key) ∈ resolving
              · simp only [List.contains_eq_mem, isFollowed, decide_true, if_true]
                exact cleanly_error ..
              · simp only [List.contains_eq_mem, isFollowed, decide_false, Bool.false_eq_true,
                  if_false]
                rw [isMoved.same]
                exact replays_following isFollowed (aliases isDeclared isDeclaredToo isFollowed)

theorem replays_base (relocation : Relocation setting elsewhere declared others)
    (aliases : ReplaysAliases declared resolving follow others followToo) (site : Site)
    (address : setting.library.SameAddress elsewhere.library site.document moved)
    (pointer : String) (base : Option Reference) :
    Replays declared resolving (tracedBase setting follow site pointer base) others
      (translateBase elsewhere followToo resolving { site with document := moved } pointer
        base) := by
  cases base with
  | none => exact replays_pure none
  | some reference =>
      refine replays_bind (replays_reference relocation aliases
        { site with owner := "", property := "" } address reference) fun type => ?_
      split
      · exact replays_pure _
      · exact cleanly_error ..

theorem replays_primitive (site : Site) (info : NodeInfo) (type : Json) :
    Replays declared resolving (untraced (primitiveType site info type)) others
      (primitiveType { site with document := moved } info type) := by
  refine replays_quiet (consists_primitiveType ..).steady (ensures_primitiveType site info type) fun _ => ?_
  unfold primitiveType
  split
  next => exact Ensures.clean (ensures_pure (repeats_pure _))
  next =>
    refine clean_orFault fun key isKey => ?_
    rw [isKey, orFault_ok_bind]
    cases key.text?.filter fun name => primitiveTypes.contains name with
    | none => exact clean_bind (steady_reportAt ..) (fun _ => steady_pure _) clean_error
    | some name => exact Ensures.clean (ensures_pure (repeats_pure _))

/-- Whatever is translated without an error can be translated again in the other library. -/
theorem replays_translation (relocation : Relocation setting elsewhere declared others)
    (aliases : ReplaysAliases declared resolving follow others followToo) :
    (∀ site node, setting.library.SameAddress elsewhere.library site.document moved →
      Replays declared resolving (tracedNode setting follow site node) others
        (translateNode elsewhere followToo resolving { site with document := moved } node)) ∧
    (∀ site nodes, setting.library.SameAddress elsewhere.library site.document moved →
      Replays declared resolving (tracedNodes setting follow site nodes) others
        (translateNodes elsewhere followToo resolving { site with document := moved } nodes)) ∧
    ∀ site properties, setting.library.SameAddress elsewhere.library site.document moved →
      Replays declared resolving (tracedProperties setting follow site properties) others
        (translateProperties elsewhere followToo resolving { site with document := moved }
          properties) := by
  refine tracedNode.mutual_induct setting _ _ _ ?ref ?primitive ?const ?enum ?object ?allOf
    ?derived ?arrayOfAnything ?array ?tuple ?union ?noNode ?nextNode ?noProperty ?ignored
    ?nextProperty
  case ref =>
    intro site reference address
    rw [tracedNode, translateNode]
    exact replays_reference relocation aliases site address reference
  case primitive =>
    intro site info type address
    rw [tracedNode, translateNode]
    exact replays_primitive site info type
  case const =>
    intro site info value type address
    rw [tracedNode, translateNode]
    exact replays_pure _
  case enum =>
    intro site info values valueType memberNames address
    rw [tracedNode, translateNode]
    exact replays_bind (replays_takeName ..) fun _ =>
      replays_bind (replays_buildEnum ..) fun _ => replays_pure _
  case object =>
    intro site body fields address
    rw [tracedNode, translateNode]
    exact replays_bind (replays_takeName ..) fun name => replays_bind
      (replays_buildClass _ _ _ _ (replays_pure none) (fields name address)) fun _ =>
        replays_pure _
  case allOf =>
    intro site info base address
    rw [tracedNode, translateNode]
    exact replays_bind (replays_takeName ..) fun name => replays_bind
      (replays_buildClass _ _ _ _ (replays_base relocation aliases _ address _ _)
        (replays_pure [])) fun _ => replays_pure _
  case derived =>
    intro site info base body fields address
    rw [tracedNode, translateNode]
    exact replays_bind (replays_takeName ..) fun name => replays_bind
      (replays_buildClass _ _ _ _ (replays_base relocation aliases _ address _ _)
        (fields name address)) fun _ => replays_pure _
  case arrayOfAnything =>
    intro site info minItems address
    rw [tracedNode, translateNode]
    exact replays_pure _
  case array =>
    intro site info item minItems ofItem address
    rw [tracedNode, translateNode]
    exact replays_bind (ofItem address) fun _ => replays_pure _
  case tuple =>
    intro site info items minItems ofItems address
    rw [tracedNode, translateNode]
    exact replays_bind (ofItems address) fun _ => replays_pure _
  case union =>
    intro site info keyword variants ofVariants address
    rw [tracedNode, translateNode]
    exact replays_bind (ofVariants address) fun _ => replays_pure _
  case noNode =>
    intro site address
    rw [tracedNodes, translateNodes]
    exact replays_pure []
  case nextNode =>
    intro site node rest ofNode ofRest address
    rw [tracedNodes, translateNodes]
    exact replays_bind (ofNode address) fun _ => replays_bind (ofRest address) fun _ =>
      replays_pure _
  case noProperty =>
    intro site address
    rw [tracedProperties, translateProperties]
    exact replays_pure []
  case ignored =>
    intro site property rest ignored ofRest address
    rw [tracedProperties, translateProperties, relocation.request, if_pos ignored,
      if_pos ignored]
    exact ofRest address
  case nextProperty =>
    intro site property rest notIgnored ofType ofRest address
    rw [tracedProperties, translateProperties, relocation.request, if_neg notIgnored,
      if_neg notIgnored]
    exact replays_bind (ofType address) fun _ => replays_bind (ofRest address) fun _ =>
      replays_pure _

end Translation

section Stages

variable {setting elsewhere : Setting} {declared others : Table Key Declaration}

theorem Declaration.Moved.site_eq (relocation : Relocation setting elsewhere declared others)
    {declaration moved : Declaration}
    (isMoved : declaration.Moved setting.library elsewhere.library moved) :
    moved.site elsewhere = { declaration.site setting with document := moved.document } := by
  rw [Declaration.site, Declaration.site, relocation.packageAt isMoved.address, ← isMoved.same]

theorem replaysAliases (relocation : Relocation setting elsewhere declared others) {depth : Nat}
    {resolving : List Key} (guarded : Guarded declared depth resolving) :
    ReplaysAliases declared resolving (tracedAlias setting depth) others
      (followAlias elsewhere depth) := by
  induction depth generalizing resolving with
  | zero =>
      intro key declaration same isDeclared isDeclaredToo unknown
      obtain ⟨_, isZero, -⟩ := guarded.next isDeclared unknown
      cases isZero
  | succ depth ih =>
      intro key declaration same isDeclared isDeclaredToo unknown
      obtain ⟨_, isDepth, guardedOn⟩ := guarded.next isDeclared unknown
      cases isDepth
      have related := relocation.declarations key
      rw [isDeclared, isDeclaredToo] at related
      cases related with
      | some isMoved =>
          rw [followAlias, isMoved.site_eq relocation, ← isMoved.same]
          exact (replays_translation relocation (ih guardedOn)).1 (declaration.site setting)
            declaration.node isMoved.address

/-- What is done for a declaration once the listener has not cancelled the run. -/
def buildPolled (setting : Setting) (depth : Nat) (declaration : Declaration) : Step Unit :=
  let site := declaration.site setting
  let follow := followAlias setting depth
  match declaration.node with
  | .object body =>
      buildClass declaration.name declaration.systemId declaration.package body.info (return none)
        (translateProperties setting follow [] site body.properties)
  | .allOf info base extension =>
      buildClass declaration.name declaration.systemId declaration.package info
        (translateBase setting follow [] site info.pointer base)
        (match extension with
          | some body => translateProperties setting follow [] site body.properties
          | none => return [])
  | .enum info values valueType memberNames =>
      buildEnum declaration.name declaration.systemId declaration.package info values valueType
        memberNames
  | node =>
      reportAt .info
        ("definition '" ++ declaration.key ++
          "' is an alias of a built-in type; no class is generated")
        declaration.systemId node.pointer

theorem buildDeclaration_eq (setting : Setting) (depth : Nat) (declaration : Declaration) :
    buildDeclaration setting depth declaration =
      liftM poll >>= fun _ => buildPolled setting depth declaration :=
  rfl

/-- What is built for a declaration without an error can be built again for the one in the other
library. -/
theorem replays_buildDeclaration (relocation : Relocation setting elsewhere declared others)
    {declaration moved : Declaration}
    (isMoved : declaration.Moved setting.library elsewhere.library moved) :
    Replays declared [] (tracedBuildDeclaration setting (declared.length + 1) declaration) others
      (buildPolled elsewhere (declared.length + 1) moved) := by
  have aliases := replaysAliases relocation (guarded_nil declared)
  have properties (properties : List (Property Node)) :=
    (replays_translation relocation aliases).2.2 (declaration.site setting) properties
      isMoved.address
  refine replays_afterPoll ?_
  rw [buildPolled, isMoved.site_eq relocation]
  rw [← isMoved.same]
  dsimp only
  cases declaration.node with
  | object body =>
      exact replays_buildClass _ _ _ _ (replays_pure none) (properties body.properties)
  | allOf info base extension =>
      have ofBase := replays_base relocation aliases (declaration.site setting) isMoved.address
        info.pointer base
      cases extension with
      | none => exact replays_buildClass _ _ _ _ ofBase (replays_pure [])
      | some body => exact replays_buildClass _ _ _ _ ofBase (properties body.properties)
  | enum info values valueType memberNames => exact replays_buildEnum ..
  | _ => exact replays_info ..

end Stages

section Declaring

variable {library other : Library} {request : Request} {items sames : List NamedNode}
  {named moved : NamedNode}

theorem moved_declarationOf (isMoved : named.Moved library other moved) :
    (declarationOf request named).Moved library other (declarationOf request moved) where
  address := isMoved.address
  same := by
    simp only [declarationOf, isMoved.name, isMoved.key, isMoved.node,
      isMoved.document.systemId, packageOf, isMoved.document.package]

theorem keyOf_moved (isMoved : named.Moved library other moved) : keyOf named = keyOf moved := by
  rw [keyOf, keyOf, isMoved.document.systemId, isMoved.key]

theorem ownName_moved (isMoved : named.Moved library other moved) :
    ownName request named = ownName request moved := by
  have isMovedToo : (declarationOf request named).Moved library other
      (declarationOf request moved) := moved_declarationOf isMoved
  rw [ownName, ownName, ← isMovedToo.same]
  rfl

theorem rel_declarations (request : Request)
    (related : Multiset.Rel (NamedNode.Moved library other) (items : Multiset NamedNode)
      (sames : Multiset NamedNode)) :
    Multiset.Rel (Declaration.Moved library other)
      (Table.values (declaredState request items).declarations : Multiset Declaration)
      (Table.values (declaredState request sames).declarations : Multiset Declaration) := by
  rw [values_declarations, values_declarations, ← Multiset.map_coe, ← Multiset.map_coe]
  exact Multiset.rel_map.mpr (related.mono fun _ _ _ _ => moved_declarationOf)

/-- What is not left out of a library is not left out of the other one. -/
theorem rel_kept (request : Request) (reordered : library.Reordered other) :
    Multiset.Rel (NamedNode.Moved library other)
      (kept request library.namedNodes : Multiset NamedNode)
      (kept request other.namedNodes : Multiset NamedNode) :=
  rel_filter reordered.rel_namedNodes fun named moved isMoved => by
    rw [isLeftOut, isLeftOut, isMoved.key, isMoved.name]

variable (related : Multiset.Rel (NamedNode.Moved library other) (items : Multiset NamedNode)
  (sames : Multiset NamedNode))

include related

theorem perm_ownNames :
    (items.flatMap (ownName request)).Perm (sames.flatMap (ownName request)) := by
  rw [List.flatMap_def, List.flatMap_def]
  exact (perm_map_of_rel related fun _ _ => ownName_moved).flatten

theorem AreDeclarable.of_rel (declarable : AreDeclarable request items) :
    AreDeclarable request sames where
  named moved occurs := by
    obtain ⟨named, isNamed, isMoved⟩ :=
      Multiset.exists_mem_of_rel_of_mem (Multiset.rel_flip.mpr related) occurs
    rw [← isMoved.name]
    exact declarable.named named isNamed
  keys := (perm_map_of_rel related fun _ _ => keyOf_moved).nodup_iff.mp declarable.keys
  names := ((perm_ownNames related).map Prod.fst).nodup_iff.mp declarable.names

theorem relocation_of_areDeclarable (reordered : library.Reordered other)
    (distinct : (library.documents.map Document.systemId).Nodup)
    (declarable : AreDeclarable request items) :
    Relocation { library, request } { library := other, request }
      (declaredState request items).declarations (declaredState request sames).declarations where
  reordered := reordered
  distinct := distinct
  request := rfl
  declarations key := by
    have sameKeys : (items.map keyOf).Perm (sames.map keyOf) :=
      perm_map_of_rel related fun _ _ => keyOf_moved
    have keys := declarable.keys
    have keysToo := (declarable.of_rel related).keys
    rw [← keys_declarations request] at keys keysToo
    cases found : Table.get? (declaredState request items).declarations key with
    | none =>
        rw [Table.get?_eq_none_iff, keys_declarations, sameKeys.mem_iff,
          ← keys_declarations request, ← Table.get?_eq_none_iff] at found
        rw [found]
        exact .none
    | some declaration =>
        obtain ⟨named, isNamed, same⟩ := List.mem_map.mp ((Table.get?_eq_some_iff keys).mp found)
        obtain ⟨rfl, rfl⟩ := Prod.mk.inj same
        obtain ⟨moved, occurs, isMoved⟩ := Multiset.exists_mem_of_rel_of_mem related isNamed
        have foundToo : Table.get? (declaredState request sames).declarations (keyOf named) =
            some (declarationOf request moved) :=
          (Table.get?_eq_some_iff keysToo).mpr
            (List.mem_map.mpr ⟨moved, occurs, by rw [keyOf_moved isMoved]⟩)
        rw [foundToo]
        exact .some (moved_declarationOf isMoved)

end Declaring

end Analysis

end Typeloom
