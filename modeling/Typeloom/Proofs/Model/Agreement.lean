import Typeloom.Proofs.ContentModel.Blocks
import Typeloom.Proofs.Model.Names
import Typeloom.Proofs.Model.NamedClasses
import Typeloom.Proofs.Schema.Loaded

/-!
# The content model of a type and its class

The content model of an object runs through the properties of its chain of bases, and its class
inherits the fields of its lineage.  Both are the same, except that the chain of bases ends at a
base that is an alias, while the class inherits from the class that the alias stands for.
-/

namespace Typeloom

open Analysis ContentModel Reporting

/-- The names of the fields of classes, one class after the other. -/
def fieldNames (classes : List ClassDefinition) : List String :=
  classes.flatMap fun definition => definition.fields.map FieldDefinition.name

/-- Whether the bases of an object, followed without aliases, lead to something that describes no
object itself. -/
inductive ReachesAlias (library : Library) : Address → Node → Prop where
  | here {address : Address} {info : NodeInfo} {reference : Reference} {target : Target}
      (extension : Option (Body Node))
      (resolves : library.resolve address.document reference = .ok (some target))
      (isAlias : target.node.isObject = false) :
      ReachesAlias library address (.allOf info (some reference) extension)
  | further {address : Address} {info : NodeInfo} {reference : Reference} {target : Target}
      (extension : Option (Body Node))
      (resolves : library.resolve address.document reference = .ok (some target))
      (later : ReachesAlias library target.address target.node) :
      ReachesAlias library address (.allOf info (some reference) extension)

theorem ReachesAlias.iff_of_object {library : Library} {address : Address} {info : NodeInfo}
    {reference : Reference} {target : Target} {extension : Option (Body Node)}
    (resolves : library.resolve address.document reference = .ok (some target))
    (isObject : target.node.isObject = true) :
    ReachesAlias library address (.allOf info (some reference) extension) ↔
      ReachesAlias library target.address target.node := by
  constructor
  · rintro (⟨_, found, isAlias⟩ | ⟨_, found, later⟩)
    · obtain rfl := Option.some.inj (Except.ok.inj (resolves.symm.trans found))
      simp [isObject] at isAlias
    · obtain rfl := Option.some.inj (Except.ok.inj (resolves.symm.trans found))
      exact later
  · exact .further extension resolves

section Agreement

variable {library : Library} {classes : List ClassDefinition}

/-- Whether the chain of bases of a node runs through the last classes of a lineage, and leaves
out others only behind an alias. -/
def Agrees (library : Library) (visiting : List Address) (address : Address) (node : Node)
    (line : List ClassDefinition) : Prop :=
  ∃ bodies inherited direct,
    BaseChain library visiting address node (.ok bodies) ∧
      line = inherited ++ direct ∧
      fieldNames direct = (bodies.flatMap Body.properties).map Property.name ∧
      (inherited ≠ [] ↔ ReachesAlias library address node)

/-- A class without a base agrees with the object that it represents. -/
theorem agrees_of_underived {named : NamedNode} {definition : ClassDefinition}
    {visiting : List Address} (represents : Represents library named definition)
    (isObject : named.node.isObject = true) (new : named.address ∉ visiting)
    (underived : definition.base = none) :
    Agrees library visiting named.address named.node [definition] := by
  have hasFields := represents.fields_eq
  have hasBase := represents.base
  unfold MatchesBase at hasBase
  match isNode : named.node with
  | .object body =>
      refine ⟨[body], [], [definition], .object body new, rfl, ?_, ?_⟩
      · simpa [fieldNames, isNode, Node.ownProperties] using hasFields
      · exact iff_of_false (absurd rfl) fun leads => by cases leads
  | .allOf info none extension =>
      refine ⟨extension.toList, [], [definition], .underived info extension new, rfl, ?_, ?_⟩
      · cases extension <;> simpa [fieldNames, isNode, Node.ownProperties] using hasFields
      · exact iff_of_false (absurd rfl) fun leads => by cases leads
  | .allOf info (some reference) extension =>
      simp [isNode, Node.base?, underived] at hasBase
  | .primitive _ _ | .const _ _ _ | .enum _ _ _ _ | .ref _ | .array _ _ _ | .tuple _ _ _
  | .union _ _ _ => simp [isNode, Node.isObject] at isObject

variable {visiting : List Address} {address : Address} {reference : Reference} {target : Target}
  {definition : ClassDefinition} {inherited : List ClassDefinition}

/-- A class agrees with a derived object if the class that it inherits from agrees with the object
that the reference to the base leads to. -/
theorem Agrees.derived {info : NodeInfo} {extension : Option (Body Node)}
    (agrees : Agrees library (address :: visiting) target.address target.node inherited)
    (new : address ∉ visiting)
    (resolves : library.resolve address.document reference = .ok (some target))
    (isObject : target.node.isObject = true)
    (own : fieldNames [definition] =
      (extension.toList.flatMap Body.properties).map Property.name) :
    Agrees library visiting address (.allOf info (some reference) extension)
      (inherited ++ [definition]) := by
  obtain ⟨bodies, outer, direct, chain, rfl, same, reaches⟩ := agrees
  refine ⟨bodies ++ extension.toList, outer, direct ++ [definition],
    .derived info extension new resolves chain, by simp, ?_, ?_⟩
  · rw [fieldNames, List.flatMap_append, List.flatMap_append, List.map_append, ← same, ← own]
    rfl
  · rw [reaches, ReachesAlias.iff_of_object resolves isObject]

/-- A class agrees with a derived object whose base is an alias, whatever the class inherits. -/
theorem agrees_of_alias {info : NodeInfo} {extension : Option (Body Node)}
    (new : address ∉ visiting)
    (resolves : library.resolve address.document reference = .ok (some target))
    (isAlias : target.node.isObject = false)
    (own : fieldNames [definition] =
      (extension.toList.flatMap Body.properties).map Property.name)
    (inherits : inherited ≠ []) :
    Agrees library visiting address (.allOf info (some reference) extension)
      (inherited ++ [definition]) := by
  have ends : BaseChain library (address :: visiting) target.address target.node (.ok []) := by
    by_cases known : target.address ∈ address :: visiting
    · exact .again target.node known
    · exact .other known isAlias
  exact ⟨extension.toList, inherited, [definition], .derived info extension new resolves ends, rfl,
    own, iff_of_true inherits (.here extension resolves isAlias)⟩

/-- A class with a base agrees with the object that it represents if the class of the base agrees
with the object that the reference to the base leads to. -/
theorem agrees_of_derived {named : NamedNode} {base : String}
    (represents : Represents library named definition) (isObject : named.node.isObject = true)
    (new : named.address ∉ visiting) (derives : definition.base = some base)
    (inherits : inherited ≠ [])
    (agrees : ∀ other ∈ library.namedNodes, other.node.isObject = true →
      base = Naming.pascalCase other.name →
        Agrees library (named.address :: visiting) other.address other.node inherited) :
    Agrees library visiting named.address named.node (inherited ++ [definition]) := by
  have hasFields := represents.fields_eq
  have hasBase := represents.base
  unfold MatchesBase at hasBase
  match isNode : named.node with
  | .allOf info (some reference) extension =>
      simp only [isNode, Node.base?] at hasBase
      obtain ⟨name, isName, target, resolves, isClass⟩ := hasBase
      obtain rfl : base = name := Option.some.inj (derives.symm.trans isName)
      have own : fieldNames [definition] =
          (extension.toList.flatMap Body.properties).map Property.name := by
        cases extension <;> simpa [fieldNames, isNode, Node.ownProperties] using hasFields
      cases leads : target.node.isObject with
      | true =>
          obtain ⟨other, occurs, atTarget, ofNode, isBase⟩ := isClass leads
          have agreesThere := agrees other occurs (ofNode ▸ leads) isBase
          rw [atTarget, ofNode] at agreesThere
          exact agreesThere.derived new resolves leads own
      | false => exact agrees_of_alias new resolves leads own inherits
  | .allOf info none extension => simp [isNode, Node.base?, derives] at hasBase
  | .object body => simp [isNode, Node.base?, derives] at hasBase
  | .primitive _ _ | .const _ _ _ | .enum _ _ _ _ | .ref _ | .array _ _ _ | .tuple _ _ _
  | .union _ _ _ => simp [isNode, Node.isObject] at isObject

/-- Whether all objects at some places have lineages of more than a number of classes. -/
def HaveLonger (library : Library) (classes : List ClassDefinition) (visiting : List Address)
    (length : Nat) : Prop :=
  ∀ other ∈ library.namedNodes, other.address ∈ visiting →
    ∃ line, Lineage classes (Naming.pascalCase other.name) line ∧ length < line.length

/-- The chain of bases of an object agrees with the lineage of its class.  It comes back to no
place, since the lineages get shorter on the way. -/
theorem agrees_of_lineage (distinct : (classes.map ClassDefinition.name).Nodup)
    (represented : ∀ named ∈ library.namedNodes, named.node.isObject = true →
      ∃ definition ∈ classes, Represents library named definition)
    {name : String} {line : List ClassDefinition} (lineage : Lineage classes name line)
    {named : NamedNode} (occurs : named ∈ library.namedNodes)
    (isObject : named.node.isObject = true) (isName : name = Naming.pascalCase named.name)
    {visiting : List Address} (longer : HaveLonger library classes visiting line.length) :
    Agrees library visiting named.address named.node line := by
  have new (named : NamedNode) {line : List ClassDefinition} (occurs : named ∈ library.namedNodes)
      (own : Lineage classes (Naming.pascalCase named.name) line) {visiting : List Address}
      (longer : HaveLonger library classes visiting line.length) : named.address ∉ visiting := by
    intro known
    obtain ⟨other, another, shorter⟩ := longer named occurs known
    rw [own.unique distinct another] at shorter
    omega
  induction lineage generalizing named visiting with
  | @root definition isClass underived =>
      obtain ⟨candidate, isCandidate, represents⟩ := represented named occurs isObject
      obtain rfl : definition = candidate := List.inj_on_of_nodup_map distinct isClass isCandidate
        (isName.trans represents.name_eq.symm)
      have own : Lineage classes (Naming.pascalCase named.name) [definition] :=
        isName ▸ .root isClass underived
      exact agrees_of_underived represents isObject (new named occurs own longer) underived
  | @derived definition base inherited isClass derives further ih =>
      obtain ⟨candidate, isCandidate, represents⟩ := represented named occurs isObject
      obtain rfl : definition = candidate := List.inj_on_of_nodup_map distinct isClass isCandidate
        (isName.trans represents.name_eq.symm)
      have own : Lineage classes (Naming.pascalCase named.name) (inherited ++ [definition]) :=
        isName ▸ .derived isClass derives further
      refine agrees_of_derived represents isObject (new named occurs own longer) derives
        further.ne_nil fun other isOther otherIsObject isBase => ?_
      refine ih isOther otherIsObject isBase fun visited isNamed known => ?_
      rcases List.mem_cons.mp known with same | earlier
      · obtain rfl := Library.eq_of_address_eq isNamed occurs same
        exact ⟨_, own, by simp⟩
      · obtain ⟨line, has, shorter⟩ := longer visited isNamed earlier
        rw [List.length_append, List.length_singleton] at shorter
        exact ⟨line, has, by omega⟩

end Agreement

/-- Every named object of a library that is analyzed without leaving anything out and without an
error has a class, and its content model agrees with the lineage of the class. -/
theorem exists_lineage_of_analyze {library : Library} {package : Option String}
    {channel channel' : Channel} {result : State} (distinct : library.DistinctNames)
    (returned : (analyze library { package }).onChannel channel = (.ok result, channel'))
    (noError : channel'.errors ≤ channel.errors) :
    ∀ named ∈ library.namedNodes, named.node.isObject = true →
      ∃ line, Lineage result.classes (Naming.pascalCase named.name) line ∧
        Agrees library [] named.address named.node line := by
  intro named occurs isObject
  obtain ⟨covers, acyclic⟩ := of_analyze_clean (clean_analysis rfl rfl distinct) returned noError
  have represented (named : NamedNode) (occurs : named ∈ library.namedNodes)
      (isObject : named.node.isObject = true) :
      ∃ definition ∈ result.classes, Represents library named definition :=
    (covers named occurs isObject).resolve_left List.not_mem_nil
  have names : (result.classes.map ClassDefinition.name).Nodup :=
    List.Nodup.of_append_left (of_analyze_eq_ok (ensures_wellNamed _) returned).nodup
  have closed := of_analyze_eq_ok (ensures_resolved _) returned
  obtain ⟨definition, isClass, represents⟩ := represented named occurs isObject
  obtain ⟨line, lineage⟩ := exists_lineage_of_not_inheritsFromItself
    (fun definition occurs => (closed definition occurs).base) isClass (acyclic definition isClass)
  rw [represents.name_eq] at lineage
  exact ⟨line, lineage, agrees_of_lineage names represented lineage occurs isObject rfl
    fun other _ known => absurd known List.not_mem_nil⟩

/-- The content model of every named object of a model that is loaded without leaving anything out
has elements for the fields of the last classes of the lineage of its class.  Others come before
them in the lineage exactly if the bases of the object lead to an alias. -/
theorem content_agrees_of_loadModel {read : String → Except Fault (List UInt8)}
    {directory sources : List String} {package : Option String} {channel channel' : Channel}
    {model : Model} (ends : Forest.Ends read directory sources channel)
    (loads : (Loading.loadModel read directory sources (.ok { package })).onChannel channel =
      (.ok (some model), channel')) :
    ∃ library between, (Loading.loadLibrary read directory sources).onChannel channel =
        (.ok (some library), between) ∧
      ∀ named ∈ library.namedNodes, named.node.isObject = true →
        ∃ expression inherited direct,
          ofNamed library named = .ok expression ∧
          Lineage model.classes (Naming.pascalCase named.name) (inherited ++ direct) ∧
          expression.elements.map Element.name = fieldNames direct ∧
          (inherited ≠ [] ↔ ReachesAlias library named.address named.node) := by
  obtain ⟨library, between, asked, result, ofLibrary, isAsked, returned, rfl, noError⟩ :=
    Loading.exists_analysis_of_loadModel loads
  cases isAsked
  refine ⟨library, between, ofLibrary, fun named occurs isObject => ?_⟩
  obtain ⟨line, lineage, bodies, inherited, direct, chain, rfl, same, reaches⟩ :=
    exists_lineage_of_analyze (Loading.distinctNames_of_loadLibrary ends ofLibrary) returned
      noError named occurs isObject
  refine ⟨(ofBodies bodies).numbered, inherited, direct, ?_, lineage, ?_, reaches⟩
  · rw [ofNamed, chain.ofNode_eq (bounded_start library named.address)]
    rfl
  · rw [same, Expression.numbered, Expression.map_name_elements_numberFrom,
      map_name_elements_ofBodies]

theorem loadLibrary_aliasedBase : ∃ library after,
    (Loading.loadLibrary readAliasedBase [] ["file:///a"]).onChannel {} =
        (.ok (some library), after) ∧
      library.namedNodes.map (fun named =>
        (named.name, named.node.isObject, (ofNamed library named).toOption.map fun expression =>
          expression.elements.map Element.name)) =
        [("Base", true, some ["a"]), ("Alias", false, some []), ("Derived", true, some ["b"])] := by
  apply exists_onChannel_eq_some
  rw [Loading.onChannel_aliasedBase]
  decide +kernel

theorem loadModel_aliasedBase : ∃ model after,
    (Loading.loadModel readAliasedBase [] ["file:///a"] (.ok {})).onChannel {} =
        (.ok (some model), after) ∧
      model.classes.map (fun definition =>
        (definition.name, definition.base, definition.fields.map FieldDefinition.name)) =
        [("Base", none, ["a"]), ("Derived", some "Base", ["b"])] := by
  apply exists_onChannel_eq_some
  rw [Loading.loadModel, onChannel_bind, Loading.onChannel_aliasedBase]
  decide +kernel

/-- The content model of the derived class has no element for the field that the class inherits. -/
theorem content_disagrees_aliasedBase : ∃ library between model after,
    (Loading.loadLibrary readAliasedBase [] ["file:///a"]).onChannel {} =
        (.ok (some library), between) ∧
      (Loading.loadModel readAliasedBase [] ["file:///a"] (.ok {})).onChannel {} =
        (.ok (some model), after) ∧
      ∃ named ∈ library.namedNodes, named.node.isObject = true ∧ ∃ expression line,
        ofNamed library named = .ok expression ∧
        Lineage model.classes (Naming.pascalCase named.name) line ∧
        expression.elements.map Element.name = ["b"] ∧ fieldNames line = ["a", "b"] := by
  obtain ⟨library, between, loadsLibrary, contents⟩ := loadLibrary_aliasedBase
  obtain ⟨model, after, loadsModel, areClasses⟩ := loadModel_aliasedBase
  refine ⟨library, between, model, after, loadsLibrary, loadsModel, ?_⟩
  have describes : ("Derived", true, some ["b"]) ∈ library.namedNodes.map fun named =>
      (named.name, named.node.isObject, (ofNamed library named).toOption.map fun expression =>
        expression.elements.map Element.name) := by
    rw [contents]
    simp
  obtain ⟨named, isNamed, ofDerived⟩ := List.mem_map.mp describes
  simp only [Prod.mk.injEq] at ofDerived
  obtain ⟨isName, isObject, hasContent⟩ := ofDerived
  obtain ⟨expression, isContent, names⟩ := Option.map_eq_some_iff.mp hasContent
  obtain ⟨base, rest, classes, isBase, others⟩ := List.map_eq_cons_iff.mp areClasses
  obtain ⟨derived, rest, rfl, isDerived, noMore⟩ := List.map_eq_cons_iff.mp others
  simp only [Prod.mk.injEq] at isBase isDerived
  obtain ⟨baseName, isRoot, baseFields⟩ := isBase
  obtain ⟨derivedName, derives, derivedFields⟩ := isDerived
  have ofBase : Lineage model.classes base.name [base] := .root (by simp [classes]) isRoot
  have inherits : Lineage model.classes derived.name [base, derived] :=
    .derived (by simp [classes]) derives (baseName ▸ ofBase)
  have className : Naming.pascalCase named.name = derived.name := by
    rw [isName, derivedName]
    decide +kernel
  refine ⟨named, isNamed, isObject, expression, [base, derived], ?_, className ▸ inherits, names,
    ?_⟩
  · cases content : ofNamed library named with
    | ok found => simpa [content, Except.toOption] using isContent
    | error fault => simp [content, Except.toOption] at isContent
  · simp [fieldNames, baseFields, derivedFields]

theorem content_agrees_aliasedBase : ∃ model after,
    (Loading.loadModel readAliasedBase [] ["file:///a"] (.ok {})).onChannel {} =
        (.ok (some model), after) ∧
      ∃ library between, (Loading.loadLibrary readAliasedBase [] ["file:///a"]).onChannel {} =
          (.ok (some library), between) ∧
        ∀ named ∈ library.namedNodes, named.node.isObject = true →
          ∃ expression inherited direct,
            ofNamed library named = .ok expression ∧
            Lineage model.classes (Naming.pascalCase named.name) (inherited ++ direct) ∧
            expression.elements.map Element.name = fieldNames direct ∧
            (inherited ≠ [] ↔ ReachesAlias library named.address named.node) := by
  obtain ⟨model, after, loads, -⟩ := loadModel_aliasedBase
  exact ⟨model, after, loads, content_agrees_of_loadModel Forest.ends_aliasedBase loads⟩

end Typeloom
