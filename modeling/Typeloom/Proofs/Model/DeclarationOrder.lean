import Typeloom.Proofs.Model.Names
import Typeloom.Proofs.Model.Presentable
import Typeloom.Proofs.Model.Relocation

/-!
# The order of documents and definitions

An analysis that reports no error and gives every name it is asked for finds the same classes and
enums, and again reports no error, when the documents of its library or the definitions in them
stand in a different order.  Each declaration adds the same to the model wherever its turn comes,
since it depends on what is declared and asks for names that nothing else asks for.
-/

namespace Typeloom

open Reporting Transcript

/-! ## Polls -/

/-- Whether the listener answers a number of further polls with no. -/
def Channel.Allows (channel : Channel) (count : Nat) : Prop :=
  ∀ limit, channel.cancelAfter = some limit → count ≤ limit - channel.polls

theorem Channel.Allows.poll {channel : Channel} {count : Nat}
    (allows : channel.Allows (count + 1)) :
    channel.poll.1 = false ∧ channel.poll.2.Allows count := by
  cases limited : channel.cancelAfter with
  | none =>
      exact ⟨by simp [Channel.poll, limited], fun _ isLimit => nomatch limited.symm.trans isLimit⟩
  | some limit =>
      have enough := allows limit limited
      refine ⟨?_, fun other isLimit => ?_⟩
      · simp [Channel.poll, limited]
        omega
      · obtain rfl := Option.some.inj (limited.symm.trans isLimit)
        change count ≤ limit - (channel.polls + 1)
        omega

theorem Channel.Allows.undisturbed {channel later : Channel} {count : Nat}
    (allows : channel.Allows count) (undisturbed : channel.Undisturbed later) :
    later.Allows count := by
  intro limit isLimit
  rw [undisturbed.polls]
  exact allows limit (undisturbed.cancelAfter ▸ isLimit)

/-- What ends with a value is allowed all its polls. -/
theorem Reporting.Ends.allows {α : Type} {action : Reporting α} {transcript : Transcript}
    {result : Except Fault α} (ends : Ends action transcript result) {channel after : Channel}
    {value : α} (ran : onChannel action channel = (.ok value, after)) :
    channel.Allows (polls transcript) ∧ result = .ok value := by
  have isOutcome := ends channel
  rw [ran] at isOutcome
  cases played : play transcript channel with
  | error cut =>
      rw [played] at isOutcome
      cases isOutcome
  | ok between =>
      rw [played] at isOutcome
      refine ⟨fun limit limited => Nat.le_of_not_lt fun more => ?_, ?_⟩
      · rw [play_of_lt limited more] at played
        cases played
      · cases result with
        | error fault => cases isOutcome
        | ok found => exact congrArg Except.ok (Except.ok.inj (congrArg Prod.fst isOutcome)).symm

namespace Analysis

section Polls

variable {setting : Setting} {depth : Nat}

/-- Every declaration is built after a poll of its own. -/
theorem exists_polls_buildDeclaration (declaration : Declaration) (state : State) :
    ∃ transcript result, Ends ((buildDeclaration setting depth declaration).run state)
      transcript result ∧ 1 ≤ polls transcript := by
  obtain ⟨transcript, result, -, ends, -⟩ := maintains_buildDeclaration depth declaration state
  have begins : Begins ((buildDeclaration setting depth declaration).run state) [.poll] := by
    rw [buildDeclaration_eq, StateT.run_bind]
    exact (ends_poll.begins.bind _).bind _
  exact ⟨transcript, result, ends, ends.polls_le_of_begins begins⟩

theorem exists_polls_forM (declarations : List Declaration) (state : State) :
    ∃ transcript result,
      Ends ((declarations.forM (buildDeclaration setting depth)).run state) transcript result ∧
        ∀ value, result = .ok value → declarations.length ≤ polls transcript := by
  induction declarations generalizing state with
  | nil => exact ⟨[], _, ends_pure _, fun _ _ => Nat.le_refl _⟩
  | cons declaration rest ih =>
      change ∃ transcript result, Ends ((buildDeclaration setting depth declaration >>= fun _ =>
        rest.forM (buildDeclaration setting depth)).run state) transcript result ∧ _
      rw [StateT.run_bind]
      obtain ⟨first, result, ends, polled⟩ := exists_polls_buildDeclaration declaration state
      cases result with
      | error fault => exact ⟨first, _, ends.bind_error _, nofun⟩
      | ok value =>
          obtain ⟨further, last, endsRest, polledRest⟩ := ih value.2
          refine ⟨first ++ further, last, ends.bind endsRest, fun _ isValue => ?_⟩
          rw [polls_append, List.length_cons]
          have := polledRest _ isValue
          omega

theorem onChannel_buildDeclaration (declaration : Declaration) (state : State) {channel : Channel}
    (goesOn : channel.poll.1 = false) :
    onChannel ((buildDeclaration setting depth declaration).run state) channel =
      onChannel ((buildPolled setting depth declaration).run state) channel.poll.2 := by
  have polled : onChannel ((liftM poll : Step Unit).run state) channel =
      (.ok ((), state), channel.poll.2) := by
    change onChannel (poll >>= fun _ => pure ((), state)) channel = _
    rw [onChannel_bind, onChannel_poll, goesOn]
    rfl
  rw [buildDeclaration_eq, StateT.run_bind, onChannel_bind, polled]

/-- What can be added in a state is added by building one declaration after the other there. -/
theorem onChannel_forM_buildDeclaration {declared : Table Key Declaration}
    {declarations : List Declaration} {additions : List Addition}
    (repeats : List.Forall₂ (fun declaration addition =>
      Repeats declared (buildPolled setting depth declaration) ⟨⟩ addition) declarations additions)
    {state : State} {channel : Channel} (same : state.declarations = declared)
    (isFree : (Addition.all additions).IsFree state.names)
    (allows : channel.Allows declarations.length) :
    ∃ later, onChannel ((declarations.forM (buildDeclaration setting depth)).run state) channel =
      (.ok (⟨⟩, state.adding (Addition.all additions)), later) ∧
        later.errors = channel.errors := by
  induction repeats generalizing state channel with
  | nil => exact ⟨channel, by rw [Addition.all_nil, State.adding_nothing]; rfl, rfl⟩
  | @cons declaration addition rest additions repeats _ ih =>
      rw [Addition.all_cons] at isFree ⊢
      obtain ⟨isFreeFirst, isFreeRest⟩ := Addition.isFree_append.mp isFree
      obtain ⟨goesOn, allowsRest⟩ := allows.poll
      obtain ⟨between, built, undisturbed⟩ := repeats state channel.poll.2 same isFreeFirst
      have sameThen : (state.adding addition).declarations = declared := same
      obtain ⟨later, builtRest, noError⟩ :=
        ih sameThen isFreeRest (allowsRest.undisturbed undisturbed)
      refine ⟨later, ?_, noError.trans undisturbed.errors⟩
      change onChannel ((buildDeclaration setting depth declaration >>= fun _ =>
        rest.forM (buildDeclaration setting depth)).run state) channel = _
      rw [StateT.run_bind, onChannel_bind, onChannel_buildDeclaration _ _ goesOn, built,
        State.adding_append]
      exact builtRest

/-- If everything is built, the listener has allowed a poll for every declaration. -/
theorem allows_of_buildAll {declared : Table Key Declaration} {state built : State}
    {channel channel' : Channel} (builds : onChannel ((buildAll setting declared).run state)
      channel = (.ok ((), built), channel')) : channel.Allows declared.length := by
  have isPolled : ∃ transcript result,
      Ends ((buildAll setting declared).run state) transcript result ∧
        ∀ value, result = .ok value → (Table.values declared).length ≤ polls transcript :=
    exists_polls_forM (Table.values declared) state
  obtain ⟨transcript, result, ends, polled⟩ := isPolled
  obtain ⟨allows, isOk⟩ := ends.allows builds
  have enough := polled _ isOk
  rw [Table.values, List.length_map] at enough
  exact fun limit limited => Nat.le_trans enough (allows limit limited)

end Polls

/-! ## Inheritance -/

section Inheritance

variable {classes same : List ClassDefinition}

theorem find?_name_of_perm (distinct : (classes.map ClassDefinition.name).Nodup)
    (perm : classes.Perm same) (name : String) :
    classes.find? (·.name = name) = same.find? (·.name = name) := by
  cases found : classes.find? (·.name = name) with
  | none =>
      refine (List.find?_eq_none.mpr fun definition occurs => ?_).symm
      exact List.find?_eq_none.mp found definition (perm.mem_iff.mpr occurs)
  | some definition =>
      have isNamed : definition.name = name := by simpa using List.find?_some found
      have occurs := List.mem_of_find?_eq_some found
      cases foundToo : same.find? (·.name = name) with
      | none =>
          have unnamed := List.find?_eq_none.mp foundToo definition (perm.mem_iff.mp occurs)
          exact absurd isNamed (by simpa using unnamed)
      | some other =>
          have isNamedToo : other.name = name := by simpa using List.find?_some foundToo
          have occursToo := perm.mem_iff.mpr (List.mem_of_find?_eq_some foundToo)
          rw [List.inj_on_of_nodup_map distinct occurs occursToo (isNamed.trans isNamedToo.symm)]

theorem returns_of_perm (distinct : (classes.map ClassDefinition.name).Nodup)
    (perm : classes.Perm same) (steps : Nat) (seen : List String) (base : Option String) :
    returns classes steps seen base = returns same steps seen base := by
  induction steps generalizing seen base with
  | zero => rfl
  | succ steps ih =>
      cases base with
      | none => rfl
      | some base => simp only [returns, find?_name_of_perm distinct perm, ih]

theorem acyclic_of_perm (distinct : (classes.map ClassDefinition.name).Nodup)
    (perm : classes.Perm same)
    (acyclic : ∀ definition ∈ classes, ¬InheritsFromItself classes definition) :
    ∀ definition ∈ same, ¬InheritsFromItself same definition := by
  intro definition occurs
  rw [InheritsFromItself, ← returns_of_perm distinct perm, ← perm.length_eq]
  exact acyclic definition (perm.mem_iff.mpr occurs)

/-- Where no class inherits from itself, nothing is cut and nothing is reported. -/
theorem onChannel_cutCycles
    (acyclic : ∀ definition ∈ classes, ¬InheritsFromItself classes definition) (state : State)
    (channel : Channel) :
    onChannel ((cutCycles 0 classes).run state) channel = (.ok (classes, state), channel) := by
  have keeps (place : Nat) : cutAt classes place = pure classes := by
    rw [cutAt]
    split
    next => rfl
    next definition atPlace => exact if_neg (acyclic definition (List.mem_of_getElem? atPlace))
  rw [cutCycles_eq]
  induction List.range' 0 (classes.length - 0) with
  | nil => rfl
  | cons place rest ih =>
      rw [List.foldlM_cons, keeps]
      exact ih

end Inheritance

/-! ## The whole analysis -/

/-- The analysis is its first two passes if then no class inherits from itself. -/
theorem onChannel_analysis {setting : Setting} {state built : State}
    {channel between further : Channel}
    (declares : onChannel ((declareAll setting).run {}) channel = (.ok ((), state), between))
    (builds : onChannel ((buildAll setting state.declarations).run state) between =
      (.ok ((), built), further))
    (acyclic : ∀ definition ∈ built.classes, ¬InheritsFromItself built.classes definition) :
    onChannel ((analysis setting).run {}) channel = (.ok ((), built), further) := by
  rw [analysis_eq, StateT.run_bind, onChannel_bind, declares]
  dsimp only
  rw [onChannel_get, StateT.run_bind, onChannel_bind, builds]
  dsimp only
  rw [onChannel_get, StateT.run_bind, onChannel_bind, onChannel_cutCycles acyclic]
  rfl

section Reordering

variable {library other : Library} {request : Request}

theorem onChannel_declareLibrary
    (declarable : AreDeclarable request (kept request library.namedNodes)) (channel : Channel) :
    onChannel ((declareAll { library, request }).run {}) channel =
      (.ok ((), declaredState request (kept request library.namedNodes)), channel) := by
  have fromNothing : AreDeclarable request ([] ++ kept request library.namedNodes) := declarable
  rw [declareAll, declareAll_eq]
  exact onChannel_declareAll library.namedNodes fromNothing channel

theorem areDeclarable_of_declareAll (distinct : library.DistinctNames) {state : State}
    {channel between : Channel}
    (declares : onChannel ((declareAll { library, request }).run {}) channel =
      (.ok ((), state), between)) (noError : between.errors ≤ channel.errors) :
    AreDeclarable request (kept request library.namedNodes) ∧
      state = declaredState request (kept request library.namedNodes) ∧ between = channel := by
  have inSteps := declares
  rw [declareAll, declareAll_eq] at inSteps
  obtain ⟨declarable, same⟩ := clean_areDeclarable (keys_differ distinct) inSteps noError
  rw [onChannel_declareLibrary declarable] at declares
  exact ⟨declarable, same, (congrArg Prod.snd declares).symm⟩

variable {setting elsewhere : Setting} {declared others : Table Key Declaration}

/-- What is built in one library is built in the other one in a different order. -/
theorem exists_additions (relocation : Relocation setting elsewhere declared others)
    (related : Multiset.Rel (Declaration.Moved setting.library elsewhere.library)
      (Table.values declared : Multiset Declaration) (Table.values others : Multiset Declaration))
    {state result : State} {trace : Trace} {channel channel' : Channel}
    (same : state.declarations = declared)
    (builds : (tracedBuildAll setting declared).outcome state {} channel =
      (.ok ((), result), trace, channel')) (noError : channel'.errors ≤ channel.errors)
    (unnumbered : trace.Unnumbered) :
    ∃ additions again, additions.Perm again ∧
      (Addition.all additions).IsFree state.names ∧
      result = state.adding (Addition.all additions) ∧
      List.Forall₂ (fun declaration addition => Repeats others
        (buildPolled elsewhere (declared.length + 1) declaration) ⟨⟩ addition)
        (Table.values others) again := by
  obtain ⟨middle, areMoved, perm⟩ := exists_of_rel related
  have replays := replays_forM (areMoved.imp fun _ _ isMoved =>
    replays_buildDeclaration relocation isMoved)
  rw [tracedBuildAll, Table.values, List.length_map] at builds
  have nothing : Trace.following {} = [] := rfl
  obtain ⟨-, -, -, clean⟩ := replays same nothing builds
  obtain ⟨additions, repeats, isFree, isResult⟩ := (clean noError).2 unnumbered
  obtain ⟨again, repeatsAgain, permAgain⟩ := List.perm_comp_forall₂ perm.symm repeats
  exact ⟨additions, again, permAgain.symm, isFree, isResult, repeatsAgain⟩

/-- What is built for declared roots and definitions is built for those of the other library too, in
a different order. -/
theorem exists_rebuilt {items sames : List NamedNode} (reordered : library.Reordered other)
    (distinct : library.DistinctNames)
    (related : Multiset.Rel (NamedNode.Moved library other) (items : Multiset NamedNode)
      (sames : Multiset NamedNode)) (declarable : AreDeclarable request items) {result : State}
    {trace : Trace} {channel channel' : Channel}
    (builds : (tracedBuildAll { library, request }
        (declaredState request items).declarations).outcome (declaredState request items) {}
      channel = (.ok ((), result), trace, channel'))
    (noError : channel'.errors ≤ channel.errors) (unnumbered : trace.Unnumbered) :
    ∃ again later,
      onChannel ((buildAll { library := other, request }
        (declaredState request sames).declarations).run (declaredState request sames)) channel =
          (.ok ((), again), later) ∧ later.errors = channel.errors ∧
      result.classes.Perm again.classes ∧ result.enums.Perm again.enums := by
  have relatedDeclarations := rel_declarations request related
  have relocation := relocation_of_areDeclarable related reordered distinct.systemIds declarable
  obtain ⟨additions, again, perm, isFree, rfl, repeats⟩ :=
    exists_additions relocation relatedDeclarations rfl builds noError unnumbered
  have sameLength := Multiset.card_eq_card_of_rel relatedDeclarations
  rw [Multiset.coe_card, Multiset.coe_card, Table.values, List.length_map] at sameLength
  have allows := allows_of_buildAll (onChannel_buildAll rfl builds)
  rw [sameLength] at repeats allows
  have isFreeAgain : (Addition.all again).IsFree (declaredState request sames).names :=
    isFree.perm perm (perm_ownNames related)
  obtain ⟨later, built, sameErrors⟩ :=
    onChannel_forM_buildDeclaration repeats rfl isFreeAgain allows
  exact ⟨(declaredState request sames).adding (Addition.all again), later, built, sameErrors,
    perm.flatMap_right _, perm.flatMap_right _⟩

/-- The order of the documents, and of the definitions in them, does not matter for an analysis that
reports no error and gives every name it is asked for: the analysis of the library in a different
order reports no error either and finds the same classes and enums. -/
theorem reordered_of_analyze {channel channel' : Channel} {result : State}
    (distinct : library.DistinctNames) (reordered : library.Reordered other)
    (returned : (analyze library request).onChannel channel = (.ok result, channel'))
    (noError : channel'.errors ≤ channel.errors)
    (unnumbered : ((tracedAnalysis { library, request }).outcome {} {} channel).2.1.Unnumbered) :
    ∃ again after, (analyze other request).onChannel channel = (.ok again, after) ∧
      after.errors ≤ channel.errors ∧ result.classes.Perm again.classes ∧
      result.enums.Perm again.enums := by
  obtain ⟨⟨_, _⟩, _, runs, last⟩ := exists_of_onChannel_bind returned
  cases last
  obtain ⟨requests, translations, ran⟩ := outcome_tracedAnalysis { library, request } channel
  rw [runs] at ran
  rw [ran] at unnumbered
  obtain ⟨state, between, further, ⟨declares, noErrorDeclaring⟩, ⟨builds, noErrorBuilding⟩,
    acyclic⟩ := stages_of_tracedAnalysis ran noError
  obtain ⟨declarable, rfl, rfl⟩ := areDeclarable_of_declareAll distinct declares noErrorDeclaring
  have related := rel_kept request reordered
  obtain ⟨again, later, builtAgain, sameErrors, sameClasses, sameEnums⟩ :=
    exists_rebuilt reordered distinct related declarable builds noErrorBuilding unnumbered
  have declaresAgain := onChannel_declareLibrary (declarable.of_rel related) between
  have distinctNames := (of_analyze_eq_ok (ensures_wellNamed _) returned).nodup.of_append_left
  have acyclicAgain := acyclic_of_perm distinctNames sameClasses acyclic
  refine ⟨again, later, ?_, Nat.le_of_eq sameErrors, sameClasses, sameEnums⟩
  rw [analyze, onChannel_bind, onChannel_analysis declaresAgain builtAgain acyclicAgain]
  rfl

/-- Orders and their customers, who refer to one another. -/
def ordersAndCustomers : Library where
  documents :=
    [{ systemId := "file:///work/order.json"
       rootName := "order"
       root := none
       definitions :=
         [{ name := "Order"
            pointer := "#/definitions/Order"
            body := .object
              { info := { pointer := "#/definitions/Order" }
                properties :=
                  [{ info := { pointer := "#/definitions/Order/properties/customer" }
                     name := "customer"
                     type := .ref
                       { info := { pointer := "#/definitions/Order/properties/customer" }
                         target := .text "customer.json#/definitions/Customer" }
                     required := true
                     default? := none },
                   { info := { pointer := "#/definitions/Order/properties/state" }
                     name := "state"
                     type := .enum { pointer := "#/definitions/Order/properties/state" }
                       [.text "open", .text "paid"] "string" (.object [])
                     required := true
                     default? := none }] } },
          { name := "Orders"
            pointer := "#/definitions/Orders"
            body := .array { pointer := "#/definitions/Orders" }
              (some (.ref { info := { pointer := "#/definitions/Orders/items" }
                            target := .text "#/definitions/Order" })) .null }]
       package := .null },
     { systemId := "file:///work/customer.json"
       rootName := "customer"
       root := none
       definitions :=
         [{ name := "Customer"
            pointer := "#/definitions/Customer"
            body := .object
              { info := { pointer := "#/definitions/Customer" }
                properties :=
                  [{ info := { pointer := "#/definitions/Customer/properties/address" }
                     name := "address"
                     type := .object
                       { info := { pointer := "#/definitions/Customer/properties/address" }
                         properties := [] }
                     required := true
                     default? := none },
                   { info := { pointer := "#/definitions/Customer/properties/orders" }
                     name := "orders"
                     type := .ref
                       { info := { pointer := "#/definitions/Customer/properties/orders" }
                         target := .text "order.json#/definitions/Orders" }
                     required := true
                     default? := none }] } }]
       package := .null }]

theorem reordered_ordersAndCustomers : ∃ result again channel after,
    (analyze ordersAndCustomers {}).onChannel {} = (.ok result, channel) ∧
      (analyze ordersAndCustomers.reversed {}).onChannel {} = (.ok again, after) ∧
      after.errors ≤ 0 ∧
      result.classes.map ClassDefinition.name = ["Order", "Customer", "CustomerAddress"] ∧
      again.classes.map ClassDefinition.name = ["Customer", "CustomerAddress", "Order"] ∧
      result.classes.Perm again.classes ∧ result.enums.Perm again.enums := by
  have isOk : ((analyze ordersAndCustomers {}).onChannel {}).1.toOption.map
      (fun state => state.classes.map ClassDefinition.name) =
        some ["Order", "Customer", "CustomerAddress"] := by
    decide +kernel
  have isOkToo : ((analyze ordersAndCustomers.reversed {}).onChannel {}).1.toOption.map
      (fun state => state.classes.map ClassDefinition.name) =
        some ["Customer", "CustomerAddress", "Order"] := by
    decide +kernel
  have noError : ((analyze ordersAndCustomers {}).onChannel {}).2.errors ≤ 0 := by decide +kernel
  have distinct : ordersAndCustomers.DistinctNames := ⟨by decide +kernel, by decide +kernel⟩
  rcases returned : (analyze ordersAndCustomers {}).onChannel {} with ⟨stop | result, channel⟩
  · rw [returned] at isOk
    contradiction
  · rw [returned] at isOk noError
    obtain ⟨again, after, returnedAgain, noErrorAgain, sameClasses, sameEnums⟩ :=
      reordered_of_analyze distinct ordersAndCustomers.reordered_reversed returned noError
        (by decide +kernel)
    rw [returnedAgain] at isOkToo
    exact ⟨result, again, channel, after, rfl, returnedAgain, noErrorAgain, by injection isOk,
      by injection isOkToo, sameClasses, sameEnums⟩

end Reordering

end Analysis

end Typeloom
