import Typeloom.Model.Loading
import Typeloom.Proofs.Model.Formed
import Typeloom.Proofs.Model.InheritanceCycles
import Typeloom.Proofs.Model.Names
import Typeloom.Proofs.Model.References

/-!
# Coherent models

In a model that is loaded, the classes and enums have different names, the types of fields are
well-formed, and whatever a class refers to is there.
-/

namespace Typeloom

/-- The classes and enums of a model. -/
def Model.definitions (model : Model) : List TypeDefinition :=
  model.classes.map TypeDefinition.ofClass ++ model.enums.map TypeDefinition.ofEnum

theorem Model.map_name_definitions (model : Model) :
    model.definitions.map TypeDefinition.name =
      model.classes.map ClassDefinition.name ++ model.enums.map EnumDefinition.name := by
  simp [definitions, Function.comp_def, TypeDefinition.name]

/-- Whether there is a class or enum with a name. -/
def Model.Defines (model : Model) (name : String) : Prop :=
  ∃ definition ∈ model.definitions, definition.name = name

/-- Whether a model leaves nothing open. -/
structure Model.Coherent (model : Model) : Prop where
  names : (model.definitions.map TypeDefinition.name).Nodup
  formed : ∀ definition ∈ model.classes, ∀ field ∈ definition.fields, field.type.Formed
  fields : ∀ definition ∈ model.classes, ∀ field ∈ definition.fields,
    ∀ name ∈ field.type.referencedNames, model.Defines name
  bases : ∀ definition ∈ model.classes, ∀ name ∈ definition.base, model.Defines name

theorem Model.Coherent.nodup_classes {model : Model} (coherent : model.Coherent) :
    (model.classes.map ClassDefinition.name).Nodup := by
  have names := coherent.names
  rw [Model.map_name_definitions] at names
  exact names.of_append_left

namespace TypeExpr

mutual

/-- A name in a type is that of a class or enum which occurs in it. -/
theorem exists_occurs_of_mem {name : String} (type : TypeExpr)
    (occurs : name ∈ type.referencedNames) :
    ∃ part : TypeExpr, part.Occurs type ∧ part.name = name ∧
      (part.kind = .classRef ∨ part.kind = .enumRef) := by
  obtain ⟨kind, own, arguments, constant⟩ := type
  rw [referencedNames] at occurs
  rcases List.mem_append.mp occurs with isOwn | inside
  · split at isOwn
    · rename_i isNamed
      exact ⟨_, .self, (List.mem_singleton.mp isOwn).symm, by simpa using isNamed⟩
    · cases isOwn
  · obtain ⟨argument, isArgument, part, occurs, isPart⟩ :=
      exists_occurs_of_mem_all arguments inside
    exact ⟨part, .argument isArgument occurs, isPart⟩

theorem exists_occurs_of_mem_all {name : String} (types : List TypeExpr)
    (occurs : name ∈ referencedNamesOfAll types) :
    ∃ type ∈ types, ∃ part : TypeExpr, part.Occurs type ∧ part.name = name ∧
      (part.kind = .classRef ∨ part.kind = .enumRef) := by
  cases types with
  | nil => simp [referencedNamesOfAll] at occurs
  | cons first rest =>
      rw [referencedNamesOfAll] at occurs
      rcases List.mem_append.mp occurs with inFirst | inRest
      · exact ⟨first, List.mem_cons_self, exists_occurs_of_mem first inFirst⟩
      · obtain ⟨type, isType, found⟩ := exists_occurs_of_mem_all rest inRest
        exact ⟨type, List.mem_cons_of_mem first isType, found⟩

end

end TypeExpr

open Analysis

theorem Model.defines_of_class {model : Model} {name : String}
    (found : ∃ target ∈ model.classes, target.name = name) : model.Defines name := by
  obtain ⟨target, isClass, rfl⟩ := found
  exact ⟨.ofClass target, List.mem_append_left _ (List.mem_map_of_mem isClass), rfl⟩

theorem Model.defines_of_enum {model : Model} {name : String}
    (found : ∃ target ∈ model.enums, target.name = name) : model.Defines name := by
  obtain ⟨target, isEnum, rfl⟩ := found
  exact ⟨.ofEnum target, List.mem_append_right _ (List.mem_map_of_mem isEnum), rfl⟩

/-- What an analysis yields is a coherent model. -/
theorem Analysis.coherent_of_analyze {library : Library} {request : Request}
    {channel after : Channel} {result : State}
    (returned : (analyze library request).onChannel channel = (.ok result, after)) :
    result.model.Coherent := by
  have named := of_analyze_eq_ok (ensures_wellNamed _) returned
  have closed := of_analyze_eq_ok (ensures_resolved _) returned
  have formed := of_analyze_eq_ok (ensures_formed _) returned
  refine ⟨?_, formed, fun definition isClass field isField name isWritten => ?_, ?_⟩
  · rw [Model.map_name_definitions]
    exact named.nodup
  · obtain ⟨part, occurs, rfl, isClassRef | isEnumRef⟩ :=
      TypeExpr.exists_occurs_of_mem field.type isWritten
    · have refers := (closed definition isClass).fields field isField part occurs
      exact Model.defines_of_class (refers.1 isClassRef)
    · have refers := (closed definition isClass).fields field isField part occurs
      exact Model.defines_of_enum (refers.2 isEnumRef)
  · exact fun definition isClass name isBase =>
      Model.defines_of_class ((closed definition isClass).base name isBase)

/-- A model that is loaded is coherent. -/
theorem Loading.coherent_of_loadModel {read : String → Except Fault (List UInt8)}
    {directory sources : List String} {request : Except Fault Request}
    {channel after : Channel} {model : Model}
    (loads : (loadModel read directory sources request).onChannel channel =
      (.ok (some model), after)) : model.Coherent := by
  obtain ⟨library, between, asked, result, -, -, returned, rfl, -⟩ :=
    exists_analysis_of_loadModel loads
  exact coherent_of_analyze returned

/-- In a model that is loaded, what a class is derived from is a class. -/
theorem Loading.exists_base_of_loadModel {read : String → Except Fault (List UInt8)}
    {directory sources : List String} {request : Except Fault Request}
    {channel after : Channel} {model : Model}
    (loads : (loadModel read directory sources request).onChannel channel =
      (.ok (some model), after)) :
    ∀ definition ∈ model.classes, ∀ name ∈ definition.base,
      ∃ base ∈ model.classes, base.name = name := by
  obtain ⟨library, between, asked, result, -, -, returned, rfl, -⟩ :=
    exists_analysis_of_loadModel loads
  have closed := of_analyze_eq_ok (ensures_resolved _) returned
  exact fun definition isClass => (closed definition isClass).base

/-- In a model that is loaded, each class ends a lineage. -/
theorem Loading.exists_lineage_of_loadModel {read : String → Except Fault (List UInt8)}
    {directory sources : List String} {request : Except Fault Request}
    {channel after : Channel} {model : Model}
    (loads : (loadModel read directory sources request).onChannel channel =
      (.ok (some model), after)) :
    ∀ definition ∈ model.classes, ∃ inherited,
      Lineage model.classes definition.name (inherited ++ [definition]) := by
  have closed := exists_base_of_loadModel loads
  have distinct := (coherent_of_loadModel loads).nodup_classes
  obtain ⟨library, between, asked, result, -, -, returned, rfl, -⟩ :=
    exists_analysis_of_loadModel loads
  have ends := of_analyze_eq_ok (ensures_chainEnds _) returned distinct
  intro definition isClass
  obtain ⟨line, lineage⟩ := exists_lineage_of_chainEnds closed isClass (ends definition isClass)
  obtain ⟨candidate, isCandidate, named, isLast⟩ := lineage.inversion
  obtain rfl := List.inj_on_of_nodup_map distinct isCandidate isClass named
  rcases isLast with ⟨-, rfl⟩ | ⟨base, inherited, -, -, rfl⟩
  · exact ⟨[], lineage⟩
  · exact ⟨inherited, lineage⟩

end Typeloom
