import Typeloom.Proofs.Model.CleanTraces
import Typeloom.Proofs.Model.Names

/-!
# Steps that are taken again

A step that is given every name it asks for adds certain names, classes and enums to a state.
Taken again in another state in which these names are free, be it with another setting in which
references resolve to the same declarations, it adds the same to that state.
-/

namespace Typeloom

/-- Whether nothing was asked and no error was reported on the way from a channel to another. -/
structure Channel.Undisturbed (channel later : Channel) : Prop where
  errors : later.errors = channel.errors
  polls : later.polls = channel.polls
  cancelAfter : later.cancelAfter = channel.cancelAfter

namespace Channel

theorem Undisturbed.refl (channel : Channel) : channel.Undisturbed channel :=
  ⟨rfl, rfl, rfl⟩

theorem Undisturbed.trans {channel between later : Channel} (first : channel.Undisturbed between)
    (rest : between.Undisturbed later) : channel.Undisturbed later :=
  ⟨rest.errors.trans first.errors, rest.polls.trans first.polls,
    rest.cancelAfter.trans first.cancelAfter⟩

theorem undisturbed_notify {notice : Severity} (noError : notice.isError = false)
    (channel : Channel) (diagnostic : Diagnostic) :
    channel.Undisturbed (channel.notify notice diagnostic) := by
  unfold notify
  dsimp only
  split <;> exact ⟨by simp [tell, noError], rfl, rfl⟩

end Channel

namespace Analysis

open Reporting Traced

/-! ## Additions -/

/-- What a step adds to a state. -/
structure Addition where
  names : Table String String := []
  classes : List ClassDefinition := []
  enums : List EnumDefinition := []

namespace Addition

instance : Append Addition where
  append first rest :=
    { names := first.names ++ rest.names
      classes := first.classes ++ rest.classes
      enums := first.enums ++ rest.enums }

variable (first rest : Addition)

@[simp] theorem names_append : (first ++ rest).names = first.names ++ rest.names :=
  rfl

@[simp] theorem classes_append : (first ++ rest).classes = first.classes ++ rest.classes :=
  rfl

@[simp] theorem enums_append : (first ++ rest).enums = first.enums ++ rest.enums :=
  rfl

/-- Whether all names of an addition are different and none is in a table. -/
structure IsFree (addition : Addition) (names : Table String String) : Prop where
  nodup : (Table.keys addition.names).Nodup
  disjoint : (Table.keys names).Disjoint (Table.keys addition.names)

theorem isFree_nothing (names : Table String String) : IsFree {} names :=
  ⟨List.nodup_nil, List.disjoint_nil_right _⟩

@[simp] theorem append_nothing (addition : Addition) : addition ++ {} = addition := by
  change ({ names := _, classes := _, enums := _ } : Addition) = addition
  simp

@[simp] theorem nothing_append (addition : Addition) : {} ++ addition = addition :=
  rfl

theorem isFree_append {first rest : Addition} {names : Table String String} :
    (first ++ rest).IsFree names ↔ first.IsFree names ∧ rest.IsFree (names ++ first.names) := by
  have keys (left right : Table String String) :
      Table.keys (left ++ right) = Table.keys left ++ Table.keys right := List.map_append
  constructor
  · rintro ⟨nodup, disjoint⟩
    rw [names_append, keys] at nodup disjoint
    rw [List.nodup_append'] at nodup
    rw [List.disjoint_append_right] at disjoint
    refine ⟨⟨nodup.1, disjoint.1⟩, nodup.2.1, ?_⟩
    rw [keys, List.disjoint_append_left]
    exact ⟨disjoint.2, nodup.2.2⟩
  · rintro ⟨⟨nodup, disjoint⟩, nodupRest, disjointRest⟩
    rw [keys, List.disjoint_append_left] at disjointRest
    refine ⟨?_, ?_⟩
    · rw [names_append, keys, List.nodup_append']
      exact ⟨nodup, nodupRest, disjointRest.2⟩
    · rw [names_append, keys, List.disjoint_append_right]
      exact ⟨disjoint, disjointRest.1⟩

/-- Several additions, one after the other. -/
def all (additions : List Addition) : Addition where
  names := additions.flatMap Addition.names
  classes := additions.flatMap Addition.classes
  enums := additions.flatMap Addition.enums

@[simp] theorem all_nil : all [] = {} :=
  rfl

@[simp] theorem all_cons (addition : Addition) (rest : List Addition) :
    all (addition :: rest) = addition ++ all rest :=
  rfl

/-- The order of additions does not matter for whether their names are free. -/
theorem IsFree.perm {additions others : List Addition} {names same : Table String String}
    (isFree : (all additions).IsFree names) (perm : additions.Perm others)
    (sameNames : names.Perm same) : (all others).IsFree same where
  nodup := ((perm.flatMap_right _).map Prod.fst).nodup_iff.mp isFree.nodup
  disjoint := by
    intro name known isAdded
    exact isFree.disjoint ((sameNames.map Prod.fst).mem_iff.mpr known)
      (((perm.flatMap_right _).map Prod.fst).mem_iff.mpr isAdded)

end Addition

def State.adding (state : State) (addition : Addition) : State :=
  { state with
    names := state.names ++ addition.names
    classes := state.classes ++ addition.classes
    enums := state.enums ++ addition.enums }

theorem State.adding_append (state : State) (first rest : Addition) :
    state.adding (first ++ rest) = (state.adding first).adding rest := by
  simp [adding]

theorem State.adding_nothing (state : State) : state.adding {} = state := by
  simp [adding]

/-- A class that is inserted behind those of a state is the first one that is added to it. -/
theorem State.adding_withClass (state : State) (addition : Addition)
    (definition : ClassDefinition) :
    (state.adding addition).withClass state.classes.length definition =
      state.adding { addition with classes := definition :: addition.classes } := by
  simp only [State.withClass, adding, insertIdx_behind]

/-! ## Taking a step again -/

/-- Whether a step yields a value and adds something to every state in which the names are free. -/
def Repeats {α : Type} (declared : Table Key Declaration) (step : Step α) (value : α)
    (addition : Addition) : Prop :=
  ∀ state channel, state.declarations = declared → addition.IsFree state.names →
    ∃ later, onChannel (step.run state) channel = (.ok (value, state.adding addition), later) ∧
      channel.Undisturbed later

section Repeats

variable {α β : Type} {declared : Table Key Declaration}

theorem repeats_pure (value : α) : Repeats declared (pure value) value {} :=
  fun state channel _ _ => ⟨channel, by rw [State.adding_nothing]; rfl, .refl channel⟩

theorem repeats_bind {step : Step α} {next : α → Step β} {value : α} {result : β}
    {first rest : Addition} (repeats : Repeats declared step value first)
    (repeatsNext : Repeats declared (next value) result rest) :
    Repeats declared (step >>= next) result (first ++ rest) := by
  intro state channel same isFree
  obtain ⟨isFreeFirst, isFreeRest⟩ := Addition.isFree_append.mp isFree
  obtain ⟨between, ran, undisturbed⟩ := repeats state channel same isFreeFirst
  obtain ⟨later, ranNext, undisturbedOn⟩ :=
    repeatsNext (state.adding first) between same isFreeRest
  refine ⟨later, ?_, undisturbed.trans undisturbedOn⟩
  rw [StateT.run_bind, onChannel_bind, ran, State.adding_append]
  exact ranNext

theorem onChannel_get (next : State → Step β) (state : State) (channel : Channel) :
    onChannel ((get >>= next).run state) channel = onChannel ((next state).run state) channel :=
  rfl

/-- A step that depends on the declarations only. -/
theorem repeats_get {next : State → Step β} {step : Step β} {result : β} {addition : Addition}
    (isStep : ∀ state : State, state.declarations = declared → next state = step)
    (repeats : Repeats declared step result addition) :
    Repeats declared (get >>= next) result addition := by
  intro state channel same isFree
  rw [onChannel_get, isStep state same]
  exact repeats state channel same isFree

theorem repeats_info (message systemId pointer : String) :
    Repeats declared (reportAt .info message systemId pointer) () {} := by
  intro state channel _ _
  exact ⟨_, by rw [State.adding_nothing]; rfl, Channel.undisturbed_notify rfl ..⟩

theorem repeats_takeName (base source : String) :
    Repeats declared (takeName base source) base { names := [(base, source)] } := by
  intro state channel _ isFree
  have unknown : base ∉ Table.keys state.names := fun known =>
    isFree.disjoint known (by simp [Table.keys])
  have isBase : freshName state.names base = base :=
    if_neg (by rwa [Table.contains_iff])
  refine ⟨channel, ?_, .refl channel⟩
  change (Except.ok (freshName state.names base, state.reserve (freshName state.names base) source),
    channel) = _
  rw [isBase, State.reserve, Table.set_of_not_contains source unknown]
  simp [State.adding]

theorem repeats_buildEnum (name systemId : String) (package : Json) (info : NodeInfo)
    (valueType : String) {values : List Json} {memberNames : Json} {members : List (Json × Json)}
    (isMembers : membersOf memberNames values = .ok members) :
    Repeats declared (buildEnum name systemId package info values valueType memberNames) ()
      { enums := [{ name, package, valueType, members, description := info.description
                    source := systemId ++ info.pointer }] } := by
  intro state channel _ _
  refine ⟨channel, ?_, .refl channel⟩
  rw [buildEnum, isMembers]
  simp [State.adding]
  rfl

/-- What is found out about a class before it is built. -/
def classParts (name systemId : String) (info : NodeInfo) (base : Step (Option String))
    (fields : Step (List FieldDefinition)) : Step (Option String × List FieldDefinition) := do
  reportAt .info ("generating class " ++ name) systemId info.pointer
  let base ← base
  let fields ← fields
  return (base, fields)

theorem onChannel_buildClass (name systemId : String) (package : Json) (info : NodeInfo)
    (base : Step (Option String)) (fields : Step (List FieldDefinition)) (state : State)
    (channel : Channel) :
    onChannel ((buildClass name systemId package info base fields).run state) channel =
      match onChannel ((classParts name systemId info base fields).run state) channel with
      | (.ok (parts, after), later) =>
          (.ok ((), after.withClass state.classes.length
            { name, package, base := parts.1, fields := parts.2, description := info.description
              source := systemId ++ info.pointer }), later)
      | (.error stop, later) => (.error stop, later) := by
  have inParts : buildClass name systemId package info base fields =
      get >>= fun state => classParts name systemId info base fields >>= fun parts =>
        modify fun after => after.withClass state.classes.length
          { name, package, base := parts.1, fields := parts.2, description := info.description
            source := systemId ++ info.pointer } := by
    simp only [buildClass, classParts, bind_assoc, pure_bind, State.withClass]
  rw [inParts, onChannel_get, StateT.run_bind, onChannel_bind]
  rcases onChannel ((classParts name systemId info base fields).run state) channel with
    ⟨stop | ⟨parts, after⟩, later⟩ <;> rfl

theorem repeats_buildClass (name systemId : String) (package : Json) (info : NodeInfo)
    {base : Step (Option String)} {fields : Step (List FieldDefinition)}
    {baseName : Option String} {definitions : List FieldDefinition} {first rest : Addition}
    (repeatsBase : Repeats declared base baseName first)
    (repeatsFields : Repeats declared fields definitions rest) :
    Repeats declared (buildClass name systemId package info base fields) ()
      { first ++ rest with
        classes :=
          { name, package, base := baseName, fields := definitions
            description := info.description, source := systemId ++ info.pointer } ::
            (first ++ rest).classes } := by
  have parts : Repeats declared (classParts name systemId info base fields) (baseName, definitions)
      ({} ++ (first ++ (rest ++ {}))) :=
    repeats_bind (repeats_info _ _ _) (repeats_bind repeatsBase
      (repeats_bind repeatsFields (repeats_pure _)))
  rw [Addition.append_nothing, Addition.nothing_append] at parts
  intro state channel same isFree
  obtain ⟨later, ran, undisturbed⟩ := parts state channel same ⟨isFree.nodup, isFree.disjoint⟩
  refine ⟨later, ?_, undisturbed⟩
  rw [onChannel_buildClass, ran]
  exact congrArg (fun after => (Except.ok ((), after), later)) (state.adding_withClass _ _)

end Repeats

/-! ## Traced steps that can be taken again -/

/-- Whether every name that was asked for was given. -/
def Trace.Unnumbered (trace : Trace) : Prop :=
  ∀ asked ∈ trace.requests, asked.given = asked.base

instance (trace : Trace) : Decidable trace.Unnumbered :=
  inferInstanceAs (Decidable (∀ asked ∈ trace.requests, asked.given = asked.base))

theorem Trace.Unnumbered.before {trace later : Trace} (unnumbered : later.Unnumbered)
    (requests : trace.requests <+: later.requests) : trace.Unnumbered :=
  fun asked occurs => unnumbered asked (requests.subset occurs)

/-- What comes of a traced step that is given every name it asks for: it adds to the state what is
added again when a certain step is taken with certain declarations. -/
structure Replayed {α : Type} (declared : Table Key Declaration) (step : Step α) (before : State)
    (trace : Trace) (value : α) (after : State) (later : Trace) : Prop where
  requests : trace.requests <+: later.requests
  exists_addition : later.Unnumbered → ∃ addition : Addition, addition.IsFree before.names ∧
    after = before.adding addition ∧ Repeats declared step value addition

/-- Whether a traced step that reports no error can be taken again as a step with other
declarations. -/
def Replays {α : Type} (declared : Table Key Declaration) (keys : List Key) (traced : Traced α)
    (others : Table Key Declaration) (step : Step α) : Prop :=
  Cleanly declared keys traced (Replayed others step)

section Replays

variable {α β : Type} {declared others : Table Key Declaration} {keys : List Key}

theorem Replayed.quiet {step : Step α} {before after : State} {trace later : Trace} {value : α}
    (same : after = before) (sameTrace : later = trace) (repeats : Repeats others step value {}) :
    Replayed others step before trace value after later where
  requests := sameTrace ▸ List.prefix_refl _
  exists_addition _ :=
    ⟨{}, Addition.isFree_nothing _, by rw [same, State.adding_nothing], repeats⟩

/-- A step that leaves the state as it is and, if it reports no error, yields what another one
yields that adds nothing. -/
theorem replays_quiet {step same : Step α} (steady : Steady step)
    (keeps : ∀ state : State, Ensures step state fun _ after => after = state)
    (clean : ∀ state, EnsuresClean step state fun value _ => Repeats others same value {}) :
    Replays declared keys (untraced step) others same :=
  (cleanly_quiet steady keeps clean).mono fun _ _ _ _ _ ⟨repeats, same, sameTrace⟩ =>
    .quiet same sameTrace repeats

theorem replays_pure (value : α) : Replays declared keys (pure value) others (pure value) :=
  replays_quiet (steady_pure value) (fun _ => ensures_pure rfl) fun _ =>
    Ensures.clean (ensures_pure (repeats_pure value))

theorem replays_bind {traced : Traced α} {step : Step α} {tracedNext : α → Traced β}
    {next : α → Step β} (first : Replays declared keys traced others step)
    (rest : ∀ value, Replays declared keys (tracedNext value) others (next value)) :
    Replays declared keys (traced >>= tracedNext) others (step >>= next) := by
  refine (cleanly_bind first rest).mono ?_
  rintro before trace result last later ⟨value, middle, between, replayed, replayedOn⟩
  refine ⟨replayed.requests.trans replayedOn.requests, fun unnumbered => ?_⟩
  obtain ⟨addition, isFree, rfl, repeats⟩ :=
    replayed.exists_addition (unnumbered.before replayedOn.requests)
  obtain ⟨further, isFreeOn, rfl, repeatsOn⟩ := replayedOn.exists_addition unnumbered
  exact ⟨addition ++ further, Addition.isFree_append.mpr ⟨isFree, isFreeOn⟩,
    (before.adding_append ..).symm, repeats_bind repeats repeatsOn⟩

theorem replays_get {tracedNext : State → Traced β} {next : State → Step β} {step : Step β}
    (isStep : ∀ state : State, state.declarations = others → next state = step)
    (rest : ∀ state : State, state.declarations = declared →
      Replays declared keys (tracedNext state) others step) :
    Replays declared keys (get >>= tracedNext) others (get >>= next) := by
  refine (cleanly_get rest).mono fun before trace value after later replayed =>
    ⟨replayed.requests, fun unnumbered => ?_⟩
  obtain ⟨addition, isFree, same, repeats⟩ := replayed.exists_addition unnumbered
  exact ⟨addition, isFree, same, repeats_get isStep repeats⟩

theorem replays_info (message systemId pointer : String) :
    Replays declared keys (untraced (reportAt .info message systemId pointer)) others
      (reportAt .info message systemId pointer) :=
  replays_quiet (steady_reportAt ..) (fun _ => ensures_reportAt rfl) fun _ =>
    Ensures.clean (ensures_reportAt (repeats_info _ _ _))

/-- Whoever is given the name that he asks for adds it. -/
theorem replays_takeName (base source : String) :
    Replays declared keys (tracedTakeName base source) others (takeName base source) := by
  refine (cleanly_takeName base source).mono ?_
  rintro before trace _ _ _ ⟨rfl, rfl, rfl⟩
  refine ⟨List.prefix_append .., fun unnumbered => ?_⟩
  have given : freshName before.names base = base :=
    unnumbered { base, given := freshName before.names base } (by simp [Trace.adding])
  have unknown : base ∉ Table.keys before.names := fun known =>
    freshName_not_mem before.names base (by rwa [given])
  rw [given]
  refine ⟨_, ?_, ?_, repeats_takeName base source⟩
  · exact ⟨List.nodup_singleton _, List.disjoint_singleton.mpr unknown⟩
  · simp [State.reserve, State.adding, Table.set_of_not_contains source unknown]

theorem replays_buildEnum (name systemId : String) (package : Json) (info : NodeInfo)
    (values : List Json) (valueType : String) (memberNames : Json) :
    Replays declared keys
      (untraced (buildEnum name systemId package info values valueType memberNames)) others
      (buildEnum name systemId package info values valueType memberNames) := by
  refine (cleanly_buildEnum ..).mono ?_
  rintro before trace _ _ _ ⟨members, isMembers, rfl, rfl⟩
  have repeats : Repeats others _ _ _ :=
    repeats_buildEnum name systemId package info valueType isMembers
  refine ⟨List.prefix_refl _, fun _ => ⟨_, ?_, ?_, repeats⟩⟩
  · exact ⟨List.nodup_nil, List.disjoint_nil_right _⟩
  · simp [State.withEnum, State.adding]

theorem replays_buildClass (name systemId : String) (package : Json) (info : NodeInfo)
    {tracedBase : Traced (Option String)} {base : Step (Option String)}
    {tracedFields : Traced (List FieldDefinition)} {fields : Step (List FieldDefinition)}
    (ofBase : Replays declared keys tracedBase others base)
    (ofFields : Replays declared keys tracedFields others fields) :
    Replays declared keys (tracedBuildClass name systemId package info tracedBase tracedFields)
      others (buildClass name systemId package info base fields) := by
  refine (cleanly_buildClass name systemId package info ofBase ofFields).mono ?_
  rintro before trace _ last later ⟨_, middle, between, _, after, replayed, replayedOn, rfl⟩
  refine ⟨replayed.requests.trans replayedOn.requests, fun unnumbered => ?_⟩
  obtain ⟨addition, isFree, rfl, repeats⟩ :=
    replayed.exists_addition (unnumbered.before replayedOn.requests)
  obtain ⟨further, isFreeOn, rfl, repeatsOn⟩ := replayedOn.exists_addition unnumbered
  obtain ⟨nodup, disjoint⟩ := Addition.isFree_append.mpr ⟨isFree, isFreeOn⟩
  have repeatsClass := repeats_buildClass name systemId package info repeats repeatsOn
  refine ⟨_, ?_, ?_, repeatsClass⟩
  · exact ⟨nodup, disjoint⟩
  · rw [← State.adding_append, State.adding_withClass]

theorem replays_translating (document : Nat) (reference : Reference) {traced : Traced TypeExpr}
    {step : Step TypeExpr} (replays : Replays declared keys traced others step) :
    Replays declared keys (translating document reference traced) others step := by
  refine (cleanly_translating document reference replays).mono ?_
  rintro before trace type after _ ⟨later, replayed, rfl⟩
  have sameRequests (translations : List Translation) :
      (later.adding [] translations).requests = later.requests := List.append_nil _
  refine ⟨by rw [sameRequests]; exact replayed.requests, fun unnumbered =>
    replayed.exists_addition ?_⟩
  rwa [Trace.Unnumbered, sameRequests] at unnumbered

theorem replays_following {key : Key} (unknown : key ∉ keys) {traced : Traced α} {step : Step α}
    (replays : Replays declared (keys ++ [key]) traced others step) :
    Replays declared keys (following key traced) others step := by
  refine (cleanly_following unknown replays).mono ?_
  rintro before trace value after _ ⟨later, replayed, rfl⟩
  exact ⟨replayed.requests, replayed.exists_addition⟩

/-- A poll adds nothing. -/
theorem replays_afterPoll {traced : Unit → Traced β} {step : Step β}
    (replays : Replays declared keys (traced ()) others step) :
    Replays declared keys (untraced (liftM poll) >>= traced) others step := by
  have polls : Cleanly declared keys (untraced (liftM poll))
      fun before trace (_ : Unit) after later => after = before ∧ later = trace :=
    cleanly_untraced steady_poll (fun _ => ensures_liftM fun _ => rfl)
      fun _ _ => Ensures.clean (ensures_liftM fun _ => ⟨rfl, rfl⟩)
  refine (cleanly_bind polls fun _ => replays).mono ?_
  rintro before trace value last later ⟨_, _, _, ⟨rfl, rfl⟩, replayed⟩
  exact replayed

/-- Traced steps that can be taken again can be taken again one after the other. -/
theorem replays_forM {ι κ : Type} {items : List ι} {sames : List κ} {traced : ι → Traced PUnit}
    {step : κ → Step PUnit} (replays : List.Forall₂
      (fun item same => Replays declared keys (traced item) others (step same)) items sames) :
    Cleanly declared keys (items.forM traced) fun before trace _ after later =>
      trace.requests <+: later.requests ∧ (later.Unnumbered → ∃ additions,
        List.Forall₂ (fun same addition => Repeats others (step same) ⟨⟩ addition)
          sames additions ∧
        (Addition.all additions).IsFree before.names ∧
        after = before.adding (Addition.all additions)) := by
  induction replays with
  | nil =>
      refine (cleanly_pure PUnit.unit).mono ?_
      rintro before trace _ _ _ ⟨-, rfl, rfl⟩
      exact ⟨List.prefix_refl _, fun _ =>
        ⟨[], .nil, Addition.isFree_nothing _, (State.adding_nothing _).symm⟩⟩
  | cons replays _ ih =>
      refine (cleanly_bind replays fun _ => ih).mono ?_
      rintro before trace _ last later ⟨_, middle, between, replayed, requests, replayedOn⟩
      refine ⟨replayed.requests.trans requests, fun unnumbered => ?_⟩
      obtain ⟨addition, isFree, rfl, repeats⟩ :=
        replayed.exists_addition (unnumbered.before requests)
      obtain ⟨additions, areRepeats, areFree, rfl⟩ := replayedOn unnumbered
      exact ⟨addition :: additions, .cons repeats areRepeats,
        Addition.isFree_append.mpr ⟨isFree, areFree⟩, (before.adding_append ..).symm⟩

end Replays

end Analysis

end Typeloom
