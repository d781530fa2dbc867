import Typeloom.Model.Analysis

/-!
# What steps of the analysis ensure

A step ensures a property if whatever it yields, and the state in which it ends, has the property.
A step that stops without a value ensures everything.  There is one lemma for every way to put
steps together, so that a property of a long step follows from properties of its parts.
-/

namespace Typeloom

namespace Analysis

/-- Whenever a step that begins in a state yields a value, the value and the state in which the
step ends have a property. -/
def Ensures {α : Type} (step : Step α) (state : State) (post : α → State → Prop) : Prop :=
  ∀ ⦃channel value after channel'⦄,
    Reporting.onChannel (step.run state) channel = (.ok (value, after), channel') →
      post value after

section Combinators

variable {α β : Type} {state : State}

theorem Ensures.mono {step : Step α} {weak strong : α → State → Prop}
    (ensures : Ensures step state strong)
    (implies : ∀ value after, strong value after → weak value after) :
    Ensures step state weak :=
  fun _ _ _ _ ends => implies _ _ (ensures ends)

theorem Ensures.and {step : Step α} {first second : α → State → Prop}
    (ensures : Ensures step state first) (ensuresToo : Ensures step state second) :
    Ensures step state fun value after => first value after ∧ second value after :=
  fun _ _ _ _ ends => ⟨ensures ends, ensuresToo ends⟩

theorem ensures_pure {value : α} {post : α → State → Prop} (holds : post value state) :
    Ensures (pure value) state post := by
  intro channel value' after channel' ends
  cases ends
  exact holds

theorem ensures_bind {step : Step α} {next : α → Step β} {post : β → State → Prop}
    (first : Ensures step state fun value after => Ensures (next value) after post) :
    Ensures (step >>= next) state post := by
  intro channel value after channel' ends
  rw [StateT.run_bind, Reporting.onChannel_bind] at ends
  rcases outcome : Reporting.onChannel (step.run state) channel with
    ⟨stop | ⟨middle, between⟩, further⟩
  · simp [outcome] at ends
  · rw [outcome] at ends
    exact first outcome ends

theorem ensures_get {post : State → State → Prop} (holds : post state state) :
    Ensures get state post := by
  intro channel value after channel' ends
  cases ends
  exact holds

theorem ensures_set {next : State} {post : PUnit → State → Prop} (holds : post ⟨⟩ next) :
    Ensures (set next) state post := by
  intro channel value after channel' ends
  cases ends
  exact holds

theorem ensures_modify {change : State → State} {post : PUnit → State → Prop}
    (holds : post ⟨⟩ (change state)) : Ensures (modify change) state post := by
  intro channel value after channel' ends
  cases ends
  exact holds

/-- What only reports leaves the state as it is. -/
theorem ensures_liftM {action : Reporting α} {post : α → State → Prop}
    (holds : ∀ value, post value state) : Ensures (liftM action) state post := by
  intro channel value after channel' ends
  change Reporting.onChannel (action >>= fun value => pure (value, state)) channel = _ at ends
  rw [Reporting.onChannel_bind] at ends
  rcases outcome : Reporting.onChannel action channel with ⟨stop | result, further⟩
  · simp [outcome] at ends
  · rw [outcome] at ends
    cases ends
    exact holds value

theorem ensures_reportAt {severity : Severity} {message systemId pointer : String}
    {post : Unit → State → Prop} (holds : post () state) :
    Ensures (reportAt severity message systemId pointer) state post :=
  ensures_liftM fun _ => holds

theorem ensures_orFault {result : Except Fault α} {post : α → State → Prop}
    (holds : ∀ value, result = .ok value → post value state) :
    Ensures (orFault result) state post := by
  intro channel value after channel' ends
  cases result with
  | ok result =>
      cases ends
      exact holds value rfl
  | error fault => cases ends

/-- An invariant that speaks of the items still to come and is kept at every item holds in the end
with no item left. -/
theorem ensures_forM {items : List α} {step : α → Step PUnit}
    (invariant : List α → State → Prop) (begins : invariant items state)
    (keeps : ∀ {item rest state}, item ∈ items → invariant (item :: rest) state →
      Ensures (step item) state fun _ after => invariant rest after) :
    Ensures (items.forM step) state fun _ after => invariant [] after := by
  induction items generalizing state with
  | nil => exact ensures_pure begins
  | cons item rest ih =>
      change Ensures (step item >>= fun _ => rest.forM step) state _
      refine ensures_bind ((keeps (by simp) begins).mono ?_)
      intro _ after between
      exact ih between fun occurs => keeps (List.mem_cons_of_mem item occurs)

theorem ensures_foldlM {items : List α} {step : β → α → Step β}
    (invariant : β → State → Prop) {initial : β} (begins : invariant initial state)
    (keeps : ∀ {value item state}, invariant value state →
      Ensures (step value item) state invariant) :
    Ensures (items.foldlM step initial) state invariant := by
  induction items generalizing state initial with
  | nil => exact ensures_pure begins
  | cons item rest ih =>
      rw [List.foldlM_cons]
      exact ensures_bind ((keeps begins).mono fun _ _ between => ih between)

end Combinators

/-! ## Single runs -/

/-- A step that begins in a state and on a channel yields a value and ends in another state, with
another channel. -/
def Leads {α : Type} (step : Step α) (start : State × Channel) (value : α)
    (finish : State × Channel) : Prop :=
  Reporting.onChannel (step.run start.1) start.2 = (.ok (value, finish.1), finish.2)

theorem leads_pure {α : Type} {value result : α} {start finish : State × Channel} :
    Leads (pure value) start result finish ↔ result = value ∧ finish = start := by
  constructor
  · intro leads
    obtain ⟨yields, sameChannel⟩ := Prod.mk.inj leads
    obtain ⟨sameValue, sameState⟩ := Prod.mk.inj (Except.ok.inj yields)
    exact ⟨sameValue.symm, (Prod.ext sameState sameChannel).symm⟩
  · rintro ⟨rfl, rfl⟩
    rfl

theorem leads_unique {α : Type} {step : Step α} {start finish finish' : State × Channel}
    {value value' : α} (leads : Leads step start value finish)
    (leads' : Leads step start value' finish') : value = value' ∧ finish = finish' := by
  obtain ⟨yields, sameChannel⟩ := Prod.mk.inj (leads.symm.trans leads')
  obtain ⟨sameValue, sameState⟩ := Prod.mk.inj (Except.ok.inj yields)
  exact ⟨sameValue, Prod.ext sameState sameChannel⟩

theorem leads_bind {α β : Type} {step : Step α} {next : α → Step β} {start finish : State × Channel}
    {result : β} :
    Leads (step >>= next) start result finish ↔
      ∃ value middle, Leads step start value middle ∧ Leads (next value) middle result finish := by
  constructor
  · intro leads
    obtain ⟨⟨value, state⟩, channel, first, rest⟩ := Reporting.exists_of_onChannel_bind leads
    exact ⟨value, (state, channel), first, rest⟩
  · rintro ⟨value, middle, first, rest⟩
    rw [Leads, StateT.run_bind, Reporting.onChannel_bind, first]
    exact rest

theorem leads_get {start finish : State × Channel} {state : State} :
    Leads get start state finish ↔ state = start.1 ∧ finish = start :=
  leads_pure

theorem leads_modify {change : State → State} {start finish : State × Channel} {value : PUnit} :
    Leads (modify change) start value finish ↔ finish = (change start.1, start.2) := by
  constructor
  · intro leads
    have changed : Leads (pure ⟨⟩) (change start.1, start.2) value finish := leads
    exact (leads_pure.mp changed).2
  · rintro rfl
    rfl

/-! ## The steps of the analysis -/

/-- A state after a name is taken for a place. -/
def State.reserve (state : State) (name source : String) : State :=
  { state with names := Table.set name source state.names }

/-- A state with one more enum. -/
def State.withEnum (state : State) (definition : EnumDefinition) : State :=
  { state with enums := state.enums ++ [definition] }

/-- A state with one more class, which has the given number. -/
def State.withClass (state : State) (place : Nat) (definition : ClassDefinition) : State :=
  { state with classes := state.classes.insertIdx place definition }

/-- A class that is inserted behind given classes comes before those that stand there already. -/
theorem insertIdx_behind (classes made : List ClassDefinition) (definition : ClassDefinition) :
    (classes ++ made).insertIdx classes.length definition = classes ++ definition :: made := by
  induction classes with
  | nil => rfl
  | cons other rest ih => exact congrArg (other :: ·) ih

theorem ensures_takeName {base source : String} {state : State} {post : String → State → Prop}
    (holds : post (freshName state.names base)
      (state.reserve (freshName state.names base) source)) :
    Ensures (takeName base source) state post :=
  ensures_bind (ensures_get (ensures_bind (ensures_set (ensures_pure holds))))

theorem ensures_buildEnum {name systemId : String} {package : Json} {info : NodeInfo}
    {values : List Json} {valueType : String} {memberNames : Json} {state : State}
    {post : PUnit → State → Prop}
    (holds : ∀ members, membersOf memberNames values = .ok members →
      post ⟨⟩ (state.withEnum
        { name, package, valueType, members, description := info.description
          source := systemId ++ info.pointer })) :
    Ensures (buildEnum name systemId package info values valueType memberNames) state post :=
  ensures_bind (ensures_orFault fun members built => ensures_modify (holds members built))

theorem ensures_buildClass {name systemId : String} {package : Json} {info : NodeInfo}
    {base : Step (Option String)} {fields : Step (List FieldDefinition)} {state : State}
    {post : PUnit → State → Prop}
    (holds : Ensures base state fun base middle =>
      Ensures fields middle fun fields after =>
        post ⟨⟩ (after.withClass state.classes.length
          { name, package, base, fields, description := info.description
            source := systemId ++ info.pointer })) :
    Ensures (buildClass name systemId package info base fields) state post := by
  refine ensures_bind (ensures_get (ensures_bind (ensures_reportAt ?_)))
  refine ensures_bind (holds.mono fun base middle found => ?_)
  exact ensures_bind (found.mono fun fields after built => ensures_modify built)

/-- A property of the state in which a step ends holds of the result of an analysis that consists
of this step. -/
theorem of_analyze_eq_ok {library : Library} {request : Request} {channel channel' : Channel}
    {result : State} {post : State → Prop}
    (ensures : Ensures (analysis { library, request }) {} fun _ after => post after)
    (returned : (analyze library request).onChannel channel = (.ok result, channel')) :
    post result := by
  rw [analyze, Reporting.onChannel_bind] at returned
  rcases outcome : Reporting.onChannel ((analysis { library, request }).run {}) channel with
    ⟨stop | ⟨value, after⟩, further⟩
  · simp [outcome] at returned
  · rw [outcome] at returned
    cases returned
    exact ensures outcome

end Analysis

end Typeloom
