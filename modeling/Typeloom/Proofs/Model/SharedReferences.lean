import Typeloom.Proofs.Model.AliasCycles
import Typeloom.Proofs.Model.CleanTraces

/-!
# References to one definition

A reference to a class, to an enum or to an alias that stands for other types alone denotes one type
wherever it occurs, and nothing is built for it.  For a reference to an alias in which there is an
object or an enum, on the other hand, a class or an enum is built each time it is translated.
-/

namespace Typeloom

namespace Analysis

open Reporting Traced

/-- The type for a type name, if there is one. -/
def plainType? (type : Json) : Option TypeExpr :=
  if type.isText "object" then some .anything
  else do
    let key ← type.asKey.toOption
    let name ← key.text?.filter fun name => primitiveTypes.contains name
    return .primitive name

/-- The type for a reference to what is declared, unless it is an alias. -/
def directType? : Option Declaration → Option TypeExpr
  | none => some .anything
  | some declaration =>
      match declaration.kind with
      | .classDefinition => some (.instanceOf declaration.name)
      | .enumDefinition => some (.memberOf declaration.name)
      | .alias => none

section Denotation

variable (setting : Setting) (declared : Table Key Declaration)

/-- Whether a node of a document has a type without anything being built for it. -/
inductive Denotes : Nat → Node → TypeExpr → Prop
  | direct {document : Nat} {reference : Reference} {key : Key} {type : TypeExpr}
      (resolves : Resolves setting document reference key)
      (isType : directType? (Table.get? declared key) = some type) :
      Denotes document (.ref reference) type
  | ofAlias {document : Nat} {reference : Reference} {key : Key} {declaration : Declaration}
      {type : TypeExpr} (leads : LeadsTo setting declared document reference key declaration)
      (inside : Denotes declaration.document declaration.node type) :
      Denotes document (.ref reference) type
  | primitive {document : Nat} {info : NodeInfo} {name : Json} {type : TypeExpr}
      (isPlain : plainType? name = some type) : Denotes document (.primitive info name) type
  | const {document : Nat} {info : NodeInfo} {value : Json} {type : String} :
      Denotes document (.const info value type) (.literal type value)
  | anyArray {document : Nat} {info : NodeInfo} {minItems : Json} :
      Denotes document (.array info none minItems) (.listOf .anything)
  | array {document : Nat} {info : NodeInfo} {item : Node} {minItems : Json} {type : TypeExpr}
      (ofItem : Denotes document item type) :
      Denotes document (.array info (some item) minItems) (.listOf type)
  | tuple {document : Nat} {info : NodeInfo} {items : List Node} {minItems : Json}
      {types : List TypeExpr} (sameLength : items.length = types.length)
      (each : ∀ pair ∈ items.zip types, Denotes document pair.1 pair.2) :
      Denotes document (.tuple info items minItems) (.tupleOf types)
  | union {document : Nat} {info : NodeInfo} {keyword : UnionKeyword} {variants : List Node}
      {types : List TypeExpr} (sameLength : variants.length = types.length)
      (each : ∀ pair ∈ variants.zip types, Denotes document pair.1 pair.2) :
      Denotes document (.union info keyword variants) (unionType types)

/-- Whether a class or an enum is built for a node of a document. -/
inductive Builds : Nat → Node → Prop
  | enum {document : Nat} {info : NodeInfo} {values : List Json} {type : String}
      {memberNames : Json} : Builds document (.enum info values type memberNames)
  | object {document : Nat} {body : Body Node} : Builds document (.object body)
  | allOf {document : Nat} {info : NodeInfo} {base : Option Reference}
      {extension : Option (Body Node)} : Builds document (.allOf info base extension)
  | array {document : Nat} {info : NodeInfo} {item : Node} {minItems : Json}
      (inside : Builds document item) : Builds document (.array info (some item) minItems)
  | tuple {document : Nat} {info : NodeInfo} {items : List Node} {minItems : Json} {item : Node}
      (occurs : item ∈ items) (inside : Builds document item) :
      Builds document (.tuple info items minItems)
  | union {document : Nat} {info : NodeInfo} {keyword : UnionKeyword} {variants : List Node}
      {variant : Node} (occurs : variant ∈ variants) (inside : Builds document variant) :
      Builds document (.union info keyword variants)
  | ofAlias {document : Nat} {reference : Reference} {key : Key} {declaration : Declaration}
      (leads : LeadsTo setting declared document reference key declaration)
      (inside : Builds declaration.document declaration.node) : Builds document (.ref reference)

/-- Whether the root or definition with a key is an alias in which there is an object or an enum. -/
def HasInlineType (key : Key) : Prop :=
  ∃ declaration, Table.get? declared key = some declaration ∧ declaration.kind = .alias ∧
    Builds setting declared declaration.document declaration.node

end Denotation

section Laws

variable {setting : Setting} {declared : Table Key Declaration} {document other : Nat}
  {node : Node} {reference again : Reference} {key : Key} {declaration : Declaration}
  {type second : TypeExpr}

theorem eq_of_zip {nodes : List Node} {types others : List TypeExpr}
    (sameLength : nodes.length = types.length) (sameLengthToo : nodes.length = others.length)
    (unique : ∀ pair ∈ nodes.zip types, ∀ other, (pair.1, other) ∈ nodes.zip others →
      pair.2 = other) : types = others := by
  induction nodes generalizing types others with
  | nil =>
      rw [List.eq_nil_of_length_eq_zero sameLength.symm,
        List.eq_nil_of_length_eq_zero sameLengthToo.symm]
  | cons node rest ih =>
      obtain ⟨type, types, rfl⟩ := List.exists_cons_of_length_eq_add_one sameLength.symm
      obtain ⟨other, others, rfl⟩ := List.exists_cons_of_length_eq_add_one sameLengthToo.symm
      have sameHead : type = other := unique (node, type) (by simp) other (by simp)
      have sameTail : types = others :=
        ih (Nat.succ.inj sameLength) (Nat.succ.inj sameLengthToo) fun pair occurs other within =>
          unique pair (List.mem_cons_of_mem _ occurs) other (List.mem_cons_of_mem _ within)
      rw [sameHead, sameTail]

/-- What is declared as an alias has no type of its own. -/
theorem LeadsTo.directType?_eq (leads : LeadsTo setting declared document reference key declaration)
    {same : Key} (resolves : Resolves setting document reference same) :
    directType? (Table.get? declared same) = none := by
  obtain rfl := leads.resolves.unique resolves
  rw [leads.isDeclared, directType?, leads.isAlias]

theorem Denotes.unique (denotes : Denotes setting declared document node type)
    (denotesToo : Denotes setting declared document node second) : type = second := by
  induction denotes generalizing second with
  | direct resolves isType =>
      cases denotesToo with
      | direct resolvesToo isTypeToo =>
          obtain rfl := resolves.unique resolvesToo
          exact Option.some.inj (isType.symm.trans isTypeToo)
      | ofAlias leads => cases (leads.directType?_eq resolves).symm.trans isType
  | ofAlias leads _ ih =>
      cases denotesToo with
      | direct resolves isType => cases (leads.directType?_eq resolves).symm.trans isType
      | ofAlias leadsToo inside =>
          obtain ⟨rfl, rfl⟩ := leads.unique leadsToo
          exact ih inside
  | primitive isPlain =>
      cases denotesToo with
      | primitive isPlainToo => exact Option.some.inj (isPlain.symm.trans isPlainToo)
  | const => cases denotesToo; rfl
  | anyArray => cases denotesToo; rfl
  | array _ ih =>
      cases denotesToo with
      | array ofItem => rw [ih ofItem]
  | tuple sameLength _ ih =>
      cases denotesToo with
      | tuple sameLengthToo each =>
          rw [eq_of_zip sameLength sameLengthToo fun pair occurs other within =>
            ih pair occurs (each _ within)]
  | union sameLength _ ih =>
      cases denotesToo with
      | union sameLengthToo each =>
          rw [eq_of_zip sameLength sameLengthToo fun pair occurs other within =>
            ih pair occurs (each _ within)]

theorem exists_zip_of_mem {nodes : List Node} {types : List TypeExpr}
    (sameLength : nodes.length = types.length) (occurs : node ∈ nodes) :
    ∃ type, (node, type) ∈ nodes.zip types := by
  rw [← List.map_fst_zip (Nat.le_of_eq sameLength)] at occurs
  obtain ⟨⟨_, type⟩, within, rfl⟩ := List.mem_map.mp occurs
  exact ⟨type, within⟩

/-- Nothing is built for what denotes a type. -/
theorem Denotes.not_builds (denotes : Denotes setting declared document node type) :
    ¬Builds setting declared document node := by
  intro builds
  induction denotes with
  | direct resolves isType =>
      cases builds with
      | ofAlias leads => cases (leads.directType?_eq resolves).symm.trans isType
  | ofAlias leads _ ih =>
      cases builds with
      | ofAlias leadsToo inside =>
          obtain ⟨rfl, rfl⟩ := leads.unique leadsToo
          exact ih inside
  | primitive => cases builds
  | const => cases builds
  | anyArray => cases builds
  | array _ ih =>
      cases builds with
      | array inside => exact ih inside
  | tuple sameLength _ ih =>
      cases builds with
      | tuple occurs inside =>
          obtain ⟨type, within⟩ := exists_zip_of_mem sameLength occurs
          exact ih _ within inside
  | union sameLength _ ih =>
      cases builds with
      | union occurs inside =>
          obtain ⟨type, within⟩ := exists_zip_of_mem sameLength occurs
          exact ih _ within inside

/-- References to one definition denote the same. -/
theorem Denotes.shared (denotes : Denotes setting declared document (.ref reference) type)
    (resolves : Resolves setting document reference key)
    (resolvesToo : Resolves setting other again key) :
    Denotes setting declared other (.ref again) type := by
  cases denotes with
  | direct resolvesSame isType =>
      obtain rfl := resolves.unique resolvesSame
      exact .direct resolvesToo isType
  | ofAlias leads inside =>
      obtain rfl := resolves.unique leads.resolves
      exact .ofAlias ⟨resolvesToo, leads.isDeclared, leads.isAlias⟩ inside

theorem builds_iff (resolves : Resolves setting document reference key) :
    Builds setting declared document (.ref reference) ↔ HasInlineType setting declared key := by
  constructor
  · intro builds
    cases builds with
    | ofAlias leads inside =>
        obtain rfl := resolves.unique leads.resolves
        exact ⟨_, leads.isDeclared, leads.isAlias, inside⟩
  · rintro ⟨declaration, isDeclared, isAlias, inside⟩
    exact .ofAlias ⟨resolves, isDeclared, isAlias⟩ inside

end Laws

/-! ## Translations -/

/-- Whether a reference was translated to the type that it denotes without anything being built, or
something was built for it. -/
def Translation.IsCoherent (setting : Setting) (declared : Table Key Declaration)
    (translation : Translation) : Prop :=
  (Denotes setting declared translation.document (.ref translation.reference) translation.type ∧
      translation.built = 0) ∨
    (Builds setting declared translation.document (.ref translation.reference) ∧
      0 < translation.built)

/-- Whether no classes and no enums are lost. -/
structure State.Grows (before after : State) : Prop where
  classes : before.classes.length ≤ after.classes.length
  enums : before.enums.length ≤ after.enums.length

theorem State.Grows.size {before after : State} (grows : before.Grows after) :
    before.size ≤ after.size :=
  Nat.add_le_add grows.classes grows.enums

theorem State.Grows.refl (state : State) : state.Grows state :=
  ⟨Nat.le_refl _, Nat.le_refl _⟩

theorem State.Grows.trans {before middle after : State} (grows : before.Grows middle)
    (growsOn : middle.Grows after) : before.Grows after :=
  ⟨Nat.le_trans grows.classes growsOn.classes, Nat.le_trans grows.enums growsOn.enums⟩

/-- A class is inserted among those that came after its building began. -/
theorem State.Grows.withClass {before after : State} (grows : before.Grows after)
    (definition : ClassDefinition) :
    before.Grows (after.withClass before.classes.length definition) ∧
      before.size < (after.withClass before.classes.length definition).size := by
  have inserted : (after.withClass before.classes.length definition).classes.length =
      after.classes.length + 1 :=
    List.length_insertIdx_of_le_length grows.classes definition
  have enums : (after.withClass before.classes.length definition).enums = after.enums := rfl
  have := grows.classes
  have := grows.enums
  refine ⟨⟨by omega, grows.enums⟩, ?_⟩
  rw [State.size, State.size, inserted, enums]
  omega

/-- What a step that reports no error comes to: it either yields a value of a certain kind and
leaves the state as it is, or it builds something.  References are translated coherently. -/
structure Settled {α : Type} (setting : Setting) (declared : Table Key Declaration)
    (denotes : α → Prop) (builds : Prop) (before : State) (trace : Trace) (value : α)
    (after : State) (later : Trace) : Prop where
  grows : before.Grows after
  result : denotes value ∧ after = before ∨ builds ∧ before.size < after.size
  coherent : ∀ translation ∈ later.translations,
    translation ∈ trace.translations ∨ translation.IsCoherent setting declared

/-- Whether a traced step settles as long as it reports no error. -/
def Settles {α : Type} (setting : Setting) (declared : Table Key Declaration) (keys : List Key)
    (traced : Traced α) (denotes : α → Prop) (builds : Prop) : Prop :=
  Cleanly declared keys traced (Settled setting declared denotes builds)

section Rules

variable {α β : Type} {setting : Setting} {declared : Table Key Declaration} {keys : List Key}
  {left right : Prop}

theorem Settles.mono {traced : Traced α} {strong weak : α → Prop}
    (settles : Settles setting declared keys traced strong left)
    (values : ∀ value, strong value → weak value) (builds : left → right) :
    Settles setting declared keys traced weak right :=
  Cleanly.mono settles fun _ _ value _ _ settled =>
    ⟨settled.grows, settled.result.imp (.imp_left (values value)) (.imp_left builds),
      settled.coherent⟩

theorem settled_of_eq {denotes : α → Prop} {before after : State} {trace later : Trace} {value : α}
    (isValue : denotes value) (same : after = before) (sameTrace : later = trace) :
    Settled setting declared denotes left before trace value after later where
  grows := same ▸ .refl before
  result := .inl ⟨isValue, same⟩
  coherent _ occurs := .inl (sameTrace ▸ occurs)

theorem settles_quiet {step : Step α} {holds : α → Prop} (steady : Steady step)
    (keeps : ∀ state : State, Ensures step state fun _ after => after = state)
    (clean : ∀ state, EnsuresClean step state fun value _ => holds value) :
    Settles setting declared keys (untraced step) holds False :=
  (cleanly_quiet steady keeps clean).mono fun _ _ _ _ _ ⟨isValue, same, sameTrace⟩ =>
    settled_of_eq isValue same sameTrace

theorem settles_pure (value : α) :
    Settles setting declared keys (pure value) (· = value) False :=
  (cleanly_pure value).mono fun _ _ _ _ _ ⟨isValue, same, sameTrace⟩ =>
    settled_of_eq isValue same sameTrace

theorem settles_reported (severity : Severity) (message systemId pointer : String) :
    Settles setting declared keys (untraced (reportAt severity message systemId pointer))
      (fun _ => True) False :=
  (cleanly_reported ..).mono fun _ _ _ _ _ ⟨same, sameTrace⟩ =>
    settled_of_eq trivial same sameTrace

theorem settles_bind {traced : Traced α} {next : α → Traced β} {first : α → Prop}
    {second : α → β → Prop} (settles : Settles setting declared keys traced first left)
    (rest : ∀ value, Settles setting declared keys (next value) (second value) right) :
    Settles setting declared keys (traced >>= next)
      (fun result => ∃ value, first value ∧ second value result) (left ∨ right) := by
  refine (cleanly_bind settles rest).mono ?_
  rintro before trace result last later ⟨value, middle, between, settled, settledOn⟩
  refine ⟨settled.grows.trans settledOn.grows, ?_, fun translation occurs =>
    (settledOn.coherent translation occurs).elim (settled.coherent translation) .inr⟩
  have growsBy := settled.grows.size
  have growsOnBy := settledOn.grows.size
  rcases settled.result with ⟨isValue, rfl⟩ | ⟨builds, more⟩
  · rcases settledOn.result with ⟨isResult, rfl⟩ | ⟨builds, more⟩
    · exact .inl ⟨⟨value, isValue, isResult⟩, rfl⟩
    · exact .inr ⟨.inr builds, more⟩
  · exact .inr ⟨.inl builds, by omega⟩

/-- Whatever takes a name builds something. -/
theorem settles_takeName {base source : String} {next : String → Traced β}
    (rest : ∀ name, Settles setting declared keys (next name) (fun _ => False) True) :
    Settles setting declared keys (tracedTakeName base source >>= next) (fun _ => False) True := by
  refine (cleanly_bind (cleanly_takeName base source) rest).mono ?_
  rintro before trace result last later ⟨name, _, _, ⟨-, rfl, rfl⟩, settled⟩
  refine ⟨⟨settled.grows.classes, settled.grows.enums⟩, .inr ⟨trivial, ?_⟩, ?_⟩
  · exact settled.result.elim (fun ⟨impossible, _⟩ => impossible.elim) And.right
  · simpa [Trace.adding] using settled.coherent

theorem settles_buildEnum (name systemId : String) (package : Json) (info : NodeInfo)
    (values : List Json) (valueType : String) (memberNames : Json) :
    Settles setting declared keys
      (untraced (buildEnum name systemId package info values valueType memberNames))
      (fun _ => False) True := by
  refine (cleanly_buildEnum ..).mono ?_
  rintro before trace _ _ _ ⟨members, -, rfl, rfl⟩
  exact ⟨⟨Nat.le_refl _, by simp [State.withEnum]⟩,
    .inr ⟨trivial, by simp [State.size, State.withEnum]⟩, fun _ => .inl⟩

theorem settles_buildClass (name systemId : String) (package : Json) (info : NodeInfo)
    {base : Traced (Option String)} {fields : Traced (List FieldDefinition)}
    {ofBase : Option String → Prop} {ofFields : List FieldDefinition → Prop}
    (settlesBase : Settles setting declared keys base ofBase left)
    (settlesFields : Settles setting declared keys fields ofFields right) :
    Settles setting declared keys (tracedBuildClass name systemId package info base fields)
      (fun _ => False) True := by
  refine (cleanly_buildClass name systemId package info settlesBase settlesFields).mono ?_
  rintro before trace _ _ later ⟨_, middle, between, _, after, ofBase, ofFields, rfl⟩
  have grows := (ofBase.grows.trans ofFields.grows).withClass
  exact ⟨(grows _).1, .inr ⟨trivial, (grows _).2⟩, fun translation occurs =>
    (ofFields.coherent translation occurs).elim (ofBase.coherent translation) .inr⟩

/-- What takes a name and builds something under it. -/
theorem settles_inline {base source : String} {step : String → Traced Unit}
    {result : String → β} {denotes : β → Prop} (builds : right)
    (settles : ∀ name, Settles setting declared keys (step name) (fun _ => False) True) :
    Settles setting declared keys
      (tracedTakeName base source >>= fun name => step name >>= fun _ => pure (result name))
      denotes right := by
  have named : Settles setting declared keys
      (tracedTakeName base source >>= fun name => step name >>= fun _ => pure (result name))
      (fun _ => False) True :=
    settles_takeName fun name => (settles_bind (settles name) fun _ => settles_pure _).mono
      (fun _ ⟨_, impossible, _⟩ => impossible) fun _ => trivial
  exact named.mono (fun _ impossible => impossible.elim) fun _ => builds

theorem settles_translating {document : Nat} {reference : Reference} {step : Traced TypeExpr}
    (settles : Settles setting declared keys step
      (Denotes setting declared document (.ref reference))
      (Builds setting declared document (.ref reference))) :
    Settles setting declared keys (translating document reference step)
      (Denotes setting declared document (.ref reference))
      (Builds setting declared document (.ref reference)) := by
  refine (cleanly_translating document reference settles).mono ?_
  rintro before trace type after _ ⟨later, settled, rfl⟩
  refine ⟨settled.grows, settled.result, fun translation occurs => ?_⟩
  rcases List.mem_append.mp occurs with earlier | isLast
  · exact settled.coherent translation earlier
  · obtain rfl := List.mem_singleton.mp isLast
    exact .inr (settled.result.imp (fun ⟨denotes, same⟩ => ⟨denotes, by rw [same, Nat.sub_self]⟩)
      fun ⟨builds, more⟩ => ⟨builds, Nat.sub_pos_of_lt more⟩)

/-- An alias that is not being followed yet settles as what it stands for. -/
theorem settles_following {key : Key} (unknown : key ∉ keys) {traced : Traced α}
    {denotes : α → Prop}
    (settles : Settles setting declared (keys ++ [key]) traced denotes left) :
    Settles setting declared keys (following key traced) denotes left := by
  refine (cleanly_following unknown settles).mono ?_
  rintro before trace value after _ ⟨later, settled, rfl⟩
  exact ⟨settled.grows, settled.result, settled.coherent⟩

end Rules

section Translation

variable {setting : Setting} {declared : Table Key Declaration} {resolving : List Key}
  {follow : Declaration → Traced TypeExpr}

/-- Whether an alias that is not being followed yet settles as its node. -/
def SettlesAliases (setting : Setting) (declared : Table Key Declaration) (resolving : List Key)
    (follow : Declaration → Traced TypeExpr) : Prop :=
  ∀ ⦃key declaration⦄, Table.get? declared key = some declaration → key ∉ resolving →
    Settles setting declared (resolving ++ [key]) (follow declaration)
      (Denotes setting declared declaration.document declaration.node)
      (Builds setting declared declaration.document declaration.node)

theorem settles_reference (aliases : SettlesAliases setting declared resolving follow) (site : Site)
    (reference : Reference) :
    Settles setting declared resolving (tracedReference setting follow site reference)
      (Denotes setting declared site.document (.ref reference))
      (Builds setting declared site.document (.ref reference)) := by
  refine settles_translating (cleanly_orFault fun target? isTarget => ?_)
  cases target? with
  | none =>
      exact cleanly_error ..
  | some target =>
      have resolves : Resolves setting site.document reference
          (target.document.systemId, target.key) := ⟨target, isTarget, rfl⟩
      refine cleanly_get fun state same => ?_
      rw [same]
      have direct {type : TypeExpr} (isType : directType?
          (Table.get? declared (target.document.systemId, target.key)) = some type) :
          Settles setting declared resolving (pure type)
            (Denotes setting declared site.document (.ref reference))
            (Builds setting declared site.document (.ref reference)) :=
        (settles_pure type).mono (fun _ isValue => isValue ▸ .direct resolves isType) False.elim
      cases isDeclared : Table.get? declared (target.document.systemId, target.key) with
      | none => exact direct (by rw [isDeclared]; rfl)
      | some declaration =>
          dsimp only
          cases isKind : declaration.kind with
          | classDefinition => exact direct (by rw [isDeclared, directType?, isKind])
          | enumDefinition => exact direct (by rw [isDeclared, directType?, isKind])
          | «alias» =>
              refine cleanly_current fun trace isFollowing => ?_
              rw [isFollowing]
              by_cases isFollowed : (target.document.systemId, target.key) ∈ resolving
              · simp only [List.contains_eq_mem, isFollowed, decide_true, if_true]
                exact cleanly_error ..
              · simp only [List.contains_eq_mem, isFollowed, decide_false, Bool.false_eq_true,
                  if_false]
                have leads : LeadsTo setting declared site.document reference
                    (target.document.systemId, target.key) declaration :=
                  ⟨resolves, isDeclared, isKind⟩
                exact settles_following isFollowed ((aliases isDeclared isFollowed).mono
                  (fun _ inside => .ofAlias leads inside) fun inside => .ofAlias leads inside)

theorem settles_base (aliases : SettlesAliases setting declared resolving follow) (site : Site)
    (pointer : String) (base : Option Reference) :
    Settles setting declared resolving (tracedBase setting follow site pointer base)
      (fun _ => True) True := by
  cases base with
  | none => exact (settles_pure none).mono (fun _ _ => trivial) False.elim
  | some reference =>
      refine (settles_bind (settles_reference aliases _ reference) fun type =>
        show Settles setting declared resolving _ (fun _ => True) True from ?_).mono
          (fun _ _ => trivial) fun _ => trivial
      split
      · exact (settles_pure _).mono (fun _ _ => trivial) False.elim
      · exact cleanly_error ..

theorem settles_primitive (site : Site) (info : NodeInfo) (type : Json) :
    Settles setting declared resolving (untraced (primitiveType site info type))
      (Denotes setting declared site.document (.primitive info type)) False := by
  refine settles_quiet (consists_primitiveType ..).steady (ensures_primitiveType site info type) fun _ => ?_
  unfold primitiveType
  split
  next isObject =>
    exact Ensures.clean (ensures_pure (.primitive (by rw [plainType?, if_pos isObject])))
  next notObject =>
    refine clean_orFault fun key isKey => ?_
    split
    next name isName =>
      refine Ensures.clean (ensures_pure (.primitive ?_))
      rw [plainType?, if_neg notObject, isKey]
      exact congrArg (Option.bind · fun name => some (TypeExpr.primitive name)) isName
    next => exact clean_bind (steady_reportAt ..) (fun _ => steady_pure _) clean_error

/-- A node either denotes the type it is translated to or has something built for it, and likewise
several nodes together. -/
theorem settles_translation (aliases : SettlesAliases setting declared resolving follow) :
    (∀ site node, Settles setting declared resolving (tracedNode setting follow site node)
      (Denotes setting declared site.document node)
      (Builds setting declared site.document node)) ∧
    (∀ site nodes, Settles setting declared resolving (tracedNodes setting follow site nodes)
      (fun types => nodes.length = types.length ∧
        ∀ pair ∈ nodes.zip types, Denotes setting declared site.document pair.1 pair.2)
      (∃ node ∈ nodes, Builds setting declared site.document node)) ∧
    ∀ site properties, Settles setting declared resolving
      (tracedProperties setting follow site properties) (fun _ => True) True := by
  refine tracedNode.mutual_induct setting _ _ _ ?ref ?primitive ?const ?enum ?object ?allOf
    ?derived ?arrayOfAnything ?array ?tuple ?union ?noNode ?nextNode ?noProperty ?ignored
    ?nextProperty
  case ref =>
    intro site reference
    rw [tracedNode]
    exact settles_reference aliases site reference
  case primitive =>
    intro site info type
    rw [tracedNode]
    exact (settles_primitive site info type).mono (fun _ => id) False.elim
  case const =>
    intro site info value type
    rw [tracedNode]
    exact (settles_pure _).mono (fun _ isType => isType ▸ .const) False.elim
  case enum =>
    intro site info values valueType memberNames
    rw [tracedNode]
    exact settles_inline .enum fun _ => settles_buildEnum ..
  case object =>
    intro site body fields
    rw [tracedNode]
    exact settles_inline .object fun name =>
      settles_buildClass _ _ _ _ (settles_pure none) (fields name)
  case allOf =>
    intro site info base
    rw [tracedNode]
    exact settles_inline .allOf fun _ =>
      settles_buildClass _ _ _ _ (settles_base aliases ..) (settles_pure [])
  case derived =>
    intro site info base body fields
    rw [tracedNode]
    exact settles_inline .allOf fun name =>
      settles_buildClass _ _ _ _ (settles_base aliases ..) (fields name)
  case arrayOfAnything =>
    intro site info minItems
    rw [tracedNode]
    exact (settles_pure _).mono (fun _ isType => isType ▸ .anyArray) False.elim
  case array =>
    intro site info item minItems ofItem
    rw [tracedNode]
    refine (settles_bind ofItem fun _ => settles_pure _).mono ?_ (Or.rec .array False.elim)
    rintro _ ⟨_, denotes, rfl⟩
    exact .array denotes
  case tuple =>
    intro site info items minItems ofItems
    rw [tracedNode]
    refine (settles_bind ofItems fun _ => settles_pure _).mono ?_ ?_
    · rintro _ ⟨_, ⟨sameLength, each⟩, rfl⟩
      exact .tuple sameLength each
    · rintro (⟨_, occurs, inside⟩ | impossible)
      · exact .tuple occurs inside
      · exact impossible.elim
  case union =>
    intro site info keyword variants ofVariants
    rw [tracedNode]
    refine (settles_bind ofVariants fun _ => settles_pure _).mono ?_ ?_
    · rintro _ ⟨_, ⟨sameLength, each⟩, rfl⟩
      exact .union sameLength each
    · rintro (⟨_, occurs, inside⟩ | impossible)
      · exact .union occurs inside
      · exact impossible.elim
  case noNode =>
    intro site
    rw [tracedNodes]
    exact (settles_pure _).mono (fun _ isNil => isNil ▸ ⟨rfl, by simp⟩) False.elim
  case nextNode =>
    intro site node rest ofNode ofRest
    rw [tracedNodes]
    refine (settles_bind ofNode fun _ => settles_bind ofRest fun _ => settles_pure _).mono ?_ ?_
    · rintro _ ⟨type, denotes, types, ⟨sameLength, each⟩, rfl⟩
      refine ⟨congrArg (· + 1) sameLength, fun pair occurs => ?_⟩
      rcases List.mem_cons.mp occurs with rfl | within
      · exact denotes
      · exact each pair within
    · rintro (inside | ⟨other, occurs, inside⟩ | impossible)
      · exact ⟨node, List.mem_cons_self, inside⟩
      · exact ⟨other, List.mem_cons_of_mem _ occurs, inside⟩
      · exact impossible.elim
  case noProperty =>
    intro site
    rw [tracedProperties]
    exact (settles_pure _).mono (fun _ _ => trivial) False.elim
  case ignored =>
    intro site property rest ignored ofRest
    rw [tracedProperties, if_pos ignored]
    exact ofRest
  case nextProperty =>
    intro site property rest notIgnored ofType ofRest
    rw [tracedProperties, if_neg notIgnored]
    exact (settles_bind ofType fun _ => settles_bind ofRest fun _ => settles_pure _).mono
      (fun _ _ => trivial) fun _ => trivial

end Translation

section Stages

variable {setting : Setting} {declared : Table Key Declaration}

theorem settlesAliases {depth : Nat} {resolving : List Key}
    (guarded : Guarded declared depth resolving) :
    SettlesAliases setting declared resolving (tracedAlias setting depth) := by
  induction depth generalizing resolving with
  | zero =>
      intro key declaration isDeclared unknown
      obtain ⟨_, isZero, -⟩ := guarded.next isDeclared unknown
      cases isZero
  | succ depth ih =>
      intro key declaration isDeclared unknown
      obtain ⟨_, same, guardedOn⟩ := guarded.next isDeclared unknown
      cases same
      exact (settles_translation (ih guardedOn)).1 (declaration.site setting) declaration.node

theorem settles_buildDeclaration (declaration : Declaration) :
    Settles setting declared []
      (tracedBuildDeclaration setting (declared.length + 1) declaration) (fun _ => True) True := by
  have aliases : SettlesAliases setting declared [] (tracedAlias setting (declared.length + 1)) :=
    settlesAliases (guarded_nil declared)
  have properties (properties : List (Property Node)) :=
    (settles_translation aliases).2.2 (declaration.site setting) properties
  have built {step : Traced Unit}
      (settles : Settles setting declared [] step (fun _ => False) True) :
      Settles setting declared [] step (fun _ => True) True :=
    settles.mono (fun _ => False.elim) id
  refine (settles_bind (settles_quiet steady_poll (fun _ => ensures_liftM fun _ => rfl) fun _ =>
    Ensures.clean fun _ _ _ _ _ => trivial) fun _ =>
      show Settles setting declared [] _ (fun _ => True) True from ?_).mono
        (fun _ _ => trivial) fun _ => trivial
  dsimp only
  cases declaration.node with
  | object body =>
      exact built (settles_buildClass _ _ _ _ (settles_pure none) (properties body.properties))
  | allOf info base extension =>
      cases extension with
      | none => exact built (settles_buildClass _ _ _ _ (settles_base aliases ..) (settles_pure []))
      | some body =>
          exact built (settles_buildClass _ _ _ _ (settles_base aliases ..)
            (properties body.properties))
  | enum info values valueType memberNames => exact built (settles_buildEnum ..)
  | _ => exact (settles_reported ..).mono (fun _ _ => trivial) False.elim

theorem settles_forM {items : List Declaration} {step : Declaration → Traced PUnit}
    (settles : ∀ item, Settles setting declared [] (step item) (fun _ => True) True) :
    Settles setting declared [] (items.forM step) (fun _ => True) True := by
  induction items with
  | nil => exact (settles_pure PUnit.unit).mono (fun _ _ => trivial) False.elim
  | cons item rest ih =>
      exact (settles_bind (settles item) fun _ => ih).mono (fun _ _ => trivial) fun _ => trivial

theorem settles_buildAll (setting : Setting) (declared : Table Key Declaration) :
    Settles setting declared [] (tracedBuildAll setting declared) (fun _ => True) True := by
  rw [tracedBuildAll, Table.values, List.length_map]
  exact settles_forM settles_buildDeclaration

/-- In an analysis that reports no error, every reference is translated coherently. -/
theorem coherent_tracedAnalysis {channel channel' : Channel} {result : State} {trace : Trace}
    (ran : (tracedAnalysis setting).outcome {} {} channel = (.ok ((), result), trace, channel'))
    (noError : channel'.errors ≤ channel.errors) :
    ∀ translation ∈ trace.translations, translation.IsCoherent setting result.declarations := by
  obtain ⟨state, between, further, -, ⟨builds, noErrorBuilding⟩, -⟩ :=
    stages_of_tracedAnalysis ran noError
  obtain ⟨-, sameDeclarations, -, clean⟩ :=
    settles_buildAll setting state.declarations (Eq.refl state.declarations) rfl builds
  intro translation occurs
  rcases (clean noErrorBuilding).coherent translation occurs with impossible | coherent
  · cases impossible
  · exact sameDeclarations ▸ coherent

/-- Whether all references that resolve to one root or definition were translated to one type and
nothing was built for them, unless this is an alias in which there is an object or an enum, and then
something was built for each of them. -/
def Trace.SharesTypes (setting : Setting) (declared : Table Key Declaration) (trace : Trace) :
    Prop :=
  ∀ first ∈ trace.translations, ∀ second ∈ trace.translations, ∀ key,
    Resolves setting first.document first.reference key →
      Resolves setting second.document second.reference key →
        (¬HasInlineType setting declared key →
            first.type = second.type ∧ first.built = 0 ∧ second.built = 0) ∧
          (HasInlineType setting declared key → 0 < first.built ∧ 0 < second.built)

/-- In an analysis that reports no error, references to one definition that is not an alias with an
object or an enum in it have the same type. -/
theorem sharesTypes_of_analyze {library : Library} {request : Request}
    {channel channel' : Channel} {result : State}
    (returned : (analyze library request).onChannel channel = (.ok result, channel'))
    (noError : channel'.errors ≤ channel.errors) :
    ∃ trace, (tracedAnalysis { library, request }).outcome {} {} channel =
        (.ok ((), result), trace, channel') ∧
      trace.SharesTypes { library, request } result.declarations := by
  obtain ⟨⟨_, after⟩, between, runs, last⟩ := exists_of_onChannel_bind returned
  cases last
  obtain ⟨requests, translations, ran⟩ := outcome_tracedAnalysis { library, request } channel
  rw [runs] at ran
  refine ⟨_, ran, fun first isFirst second isSecond key resolves resolvesToo => ?_⟩
  have coherent := coherent_tracedAnalysis ran noError
  rcases coherent first isFirst with ⟨denotes, builtNothing⟩ | ⟨builds, built⟩
  · have noInlineType := denotes.not_builds ∘ (builds_iff resolves).mpr
    refine ⟨fun _ => ?_, fun hasInlineType => absurd hasInlineType noInlineType⟩
    rcases coherent second isSecond with ⟨denotesToo, builtNothingToo⟩ | ⟨builds, -⟩
    · have same := (denotes.shared resolves resolvesToo).unique denotesToo
      exact ⟨same, builtNothing, builtNothingToo⟩
    · exact absurd ((builds_iff resolvesToo).mp builds) noInlineType
  · have hasInlineType := (builds_iff resolves).mp builds
    refine ⟨fun noInlineType => absurd hasInlineType noInlineType, fun _ => ?_⟩
    rcases coherent second isSecond with ⟨denotes, -⟩ | ⟨-, builtToo⟩
    · exact absurd ((builds_iff resolvesToo).mpr hasInlineType) denotes.not_builds
    · exact ⟨built, builtToo⟩

/-- An order with two lists of items, which are objects. -/
def sharedItems : Library where
  documents :=
    [{ systemId := "file:///work/doc.json"
       rootName := "doc"
       root := none
       definitions :=
         [{ name := "Items"
            pointer := "#/definitions/Items"
            body := .array { pointer := "#/definitions/Items" }
              (some (.object
                { info := { pointer := "#/definitions/Items/items" }, properties := [] })) .null },
          { name := "Order"
            pointer := "#/definitions/Order"
            body := .object
              { info := { pointer := "#/definitions/Order" }
                properties := ["paid", "open"].map fun name =>
                  { info := { pointer := "#/definitions/Order/properties/" ++ name }
                    name
                    type := .ref
                      { info := { pointer := "#/definitions/Order/properties/" ++ name }
                        target := .text "#/definitions/Items" }
                    required := true
                    default? := none } } }]
       package := .null }]

theorem sharesTypes_sharedItems : ∃ result channel,
    (analyze sharedItems {}).onChannel {} = (.ok result, channel) ∧ channel.errors ≤ 0 ∧
      result.classes.map ClassDefinition.name = ["Order", "Items", "Items2"] ∧
      ∃ trace, (tracedAnalysis { library := sharedItems, request := {} }).outcome {} {} {} =
          (.ok ((), result), trace, channel) ∧
        trace.SharesTypes { library := sharedItems, request := {} } result.declarations := by
  have isOk : ((analyze sharedItems {}).onChannel {}).1.toOption.map
      (fun state => state.classes.map ClassDefinition.name) =
        some ["Order", "Items", "Items2"] := by
    decide +kernel
  have noError : ((analyze sharedItems {}).onChannel {}).2.errors ≤ 0 := by decide +kernel
  rcases returned : (analyze sharedItems {}).onChannel {} with ⟨stop | result, channel⟩
  · rw [returned] at isOk
    contradiction
  · rw [returned] at isOk noError
    exact ⟨result, channel, rfl, noError, by injection isOk,
      sharesTypes_of_analyze returned noError⟩

/-- The two lists have different types, although no error is reported. -/
theorem types_differ_sharedItems : ∃ result trace channel,
    (tracedAnalysis { library := sharedItems, request := {} }).outcome {} {} {} =
        (.ok ((), result), trace, channel) ∧ channel.errors = 0 ∧
      ∃ first ∈ trace.translations, ∃ second ∈ trace.translations, ∃ key,
        Resolves { library := sharedItems, request := {} } first.document first.reference key ∧
        Resolves { library := sharedItems, request := {} } second.document second.reference key ∧
        first.type ≠ second.type ∧ second.built = 1 := by
  have resolves {reference : Reference} (isItems : reference.target = .text "#/definitions/Items") :
      Resolves { library := sharedItems, request := {} } 0 reference
        ("file:///work/doc.json", "Items") := by
    refine ⟨(Library.targetIn 0 sharedItems.documents[0]
      (Library.fragmentOf "#/definitions/Items")).get (by decide +kernel), ?_, by cbv⟩
    rw [Library.resolve, isItems]
    cbv
  rcases ran : (tracedAnalysis { library := sharedItems, request := {} }).outcome {} {} {} with
    ⟨result?, trace, channel⟩
  have isOk : result?.toBool := by
    rw [show result? = _ from congrArg Prod.fst ran.symm]
    decide +kernel
  have noError : channel.errors = 0 := by
    rw [show channel = _ from congrArg (·.2.2) ran.symm]
    decide +kernel
  have translations : trace.translations.map (fun translation =>
      (translation.document, translation.reference.target, translation.type.referencedNames,
        translation.built)) =
        [(0, .text "#/definitions/Items", ["Items"], 1),
          (0, .text "#/definitions/Items", ["Items2"], 1)] := by
    rw [show trace = _ from congrArg (·.2.1) ran.symm]
    decide +kernel
  obtain ⟨first, rest, isTrace, isFirst, areRest⟩ := List.map_eq_cons_iff.mp translations
  obtain ⟨second, others, rfl, isSecond, -⟩ := List.map_eq_cons_iff.mp areRest
  obtain ⟨inDocument, isItems, hasName, -⟩ := by simpa only [Prod.mk.injEq] using isFirst
  obtain ⟨inDocumentToo, isItemsToo, hasOtherName, built⟩ := by
    simpa only [Prod.mk.injEq] using isSecond
  have differ : first.type ≠ second.type := fun same => by
    rw [same, hasOtherName] at hasName
    exact absurd hasName (by decide)
  rcases result? with stop | ⟨_, result⟩
  · contradiction
  · have isKey := resolves isItems
    have isKeyToo := resolves isItemsToo
    rw [← inDocument] at isKey
    rw [← inDocumentToo] at isKeyToo
    exact ⟨result, trace, channel, rfl, noError, first, by simp [isTrace], second,
      by simp [isTrace], _, isKey, isKeyToo, differ, built⟩

end Stages

end Analysis

end Typeloom
