import Typeloom.Model.Analysis

/-!
# What the analysis is put together from

Every step of the analysis before cycles are cut is put together from few parts: it looks at the
state or changes it, it asks whether it is to stop, it may fail, and it reports something at a place
in a document.  What holds of these parts and of one step after another therefore holds of all of
them.
-/

namespace Typeloom

namespace Analysis

open Reporting

/-- Whether a step is put together from parts that report messages of one kind at most. -/
inductive Consists (kind : String → Prop) : {α : Type} → Step α → Prop
  | pure {α : Type} (value : α) : Consists kind (pure value)
  | bind {α β : Type} {step : Step α} {next : α → Step β} (first : Consists kind step)
      (rest : ∀ value, Consists kind (next value)) : Consists kind (step >>= next)
  | get : Consists kind get
  | set (state : State) : Consists kind (set state)
  | modify (change : State → State) : Consists kind (modify change)
  | orFault {α : Type} (result : Except Fault α) : Consists kind (orFault result)
  | poll : Consists kind (liftM poll)
  | reportAt (severity : Severity) {message : String} (isSaid : kind message)
      (systemId pointer : String) : Consists kind (reportAt severity message systemId pointer)

/-- The messages of the analysis but for the one that a class inherits from itself. -/
inductive IsRoutine : String → Prop
  | nameless (rawName : String) : IsRoutine ("cannot derive a class name from '" ++ rawName ++ "'")
  | collides (name source : String) :
      IsRoutine ("class name '" ++ name ++ "' collides with the declaration at " ++ source)
  | generates (name : String) : IsRoutine ("generating class " ++ name)
  | unknown (type : String) : IsRoutine ("unknown type '" ++ type ++ "'")
  | undefined (shown : String) : IsRoutine ("undefined reference '" ++ shown ++ "'")
  | circular (shown : String) : IsRoutine ("circular reference '" ++ shown ++ "'")
  | baseless (shown : String) :
      IsRoutine ("allOf base '" ++ shown ++ "' is not an object definition")
  | alias (key : String) :
      IsRoutine ("definition '" ++ key ++ "' is an alias of a built-in type; no class is generated")

section Parts

variable {α : Type} {setting : Setting} {follow : List Key → Declaration → Step TypeExpr}
  {resolving : List Key}

theorem consists_forM {kind : String → Prop} {items : List α} {step : α → Step PUnit}
    (each : ∀ item, Consists kind (step item)) : Consists kind (items.forM step) := by
  induction items with
  | nil => exact .pure PUnit.unit
  | cons item rest ih => exact .bind (each item) fun _ => ih

/-- A problem that is reported, and the value in its place. -/
theorem consists_problem {message : String} (isRoutine : IsRoutine message) (severity : Severity)
    (systemId pointer : String) (value : α) :
    Consists IsRoutine (do
      reportAt severity message systemId pointer
      return value) :=
  .bind (.reportAt severity isRoutine systemId pointer) fun _ => .pure value

theorem consists_declare (request : Request) (document : Nat) (systemId key rawName : String)
    (node : Node) (package : Json) :
    Consists IsRoutine (declare request document systemId key rawName node package) := by
  unfold declare
  dsimp only
  split
  · exact .pure ()
  · split
    · exact consists_problem (.nameless rawName) ..
    · refine .bind .get fun state => ?_
      split
      · split
        · exact consists_problem (.collides ..) ..
        · exact .bind (.modify _) fun _ => .modify _
      · exact .modify _

theorem consists_takeName (base source : String) :
    Consists IsRoutine (takeName base source) :=
  .bind .get fun _ => .bind (.set _) fun _ => .pure _

theorem consists_buildEnum (name systemId : String) (package : Json) (info : NodeInfo)
    (values : List Json) (valueType : String) (memberNames : Json) :
    Consists IsRoutine (buildEnum name systemId package info values valueType memberNames) :=
  .bind (.orFault _) fun _ => .modify _

theorem consists_buildClass (name systemId : String) (package : Json) (info : NodeInfo)
    {base : Step (Option String)} {fields : Step (List FieldDefinition)}
    (ofBase : Consists IsRoutine base) (ofFields : Consists IsRoutine fields) :
    Consists IsRoutine (buildClass name systemId package info base fields) :=
  .bind .get fun _ => .bind (.reportAt _ (.generates name) _ _) fun _ =>
    .bind ofBase fun _ => .bind ofFields fun _ => .modify _

theorem consists_translateReference
    (aliases : ∀ resolving declaration, Consists IsRoutine (follow resolving declaration))
    (site : Site) (reference : Reference) :
    Consists IsRoutine (translateReference setting follow resolving site reference) := by
  refine .bind (.orFault _) fun target? => ?_
  cases target? with
  | none => exact consists_problem (.undefined _) ..
  | some target =>
      refine .bind .get fun state => ?_
      split
      · exact .pure _
      · split
        · exact .pure _
        · exact .pure _
        · split
          · exact consists_problem (.circular _) ..
          · exact aliases _ _

theorem consists_translateBase
    (aliases : ∀ resolving declaration, Consists IsRoutine (follow resolving declaration))
    (site : Site) (pointer : String) (base : Option Reference) :
    Consists IsRoutine (translateBase setting follow resolving site pointer base) := by
  cases base with
  | none => exact .pure none
  | some reference =>
      refine .bind (consists_translateReference aliases _ reference) fun type => ?_
      split
      · exact .pure _
      · exact consists_problem (.baseless _) ..

theorem consists_primitiveType (site : Site) (info : NodeInfo) (type : Json) :
    Consists IsRoutine (primitiveType site info type) := by
  unfold primitiveType
  split
  · exact .pure _
  · refine .bind (.orFault _) fun key => ?_
    split
    · exact .pure _
    · exact consists_problem (.unknown _) ..

theorem consists_translation
    (aliases : ∀ resolving declaration, Consists IsRoutine (follow resolving declaration)) :
    (∀ site node, Consists IsRoutine (translateNode setting follow resolving site node)) ∧
    (∀ site nodes, Consists IsRoutine (translateNodes setting follow resolving site nodes)) ∧
    ∀ site properties,
      Consists IsRoutine (translateProperties setting follow resolving site properties) := by
  refine translateNode.mutual_induct setting _ _ _ ?ref ?primitive ?const ?enum ?object ?allOf
    ?arrayOfAnything ?array ?tuple ?union ?noNode ?nextNode ?noProperty ?ignored ?nextProperty
  case ref =>
    intro site reference
    rw [translateNode]
    exact consists_translateReference aliases site reference
  case primitive =>
    intro site info type
    rw [translateNode]
    exact consists_primitiveType site info type
  case const =>
    intro site info value type
    rw [translateNode]
    exact .pure _
  case enum =>
    intro site info values valueType memberNames
    rw [translateNode]
    exact .bind (consists_takeName ..) fun _ => .bind (consists_buildEnum ..) fun _ => .pure _
  case object =>
    intro site body fields
    rw [translateNode]
    exact .bind (consists_takeName ..) fun name =>
      .bind (consists_buildClass _ _ _ _ (.pure none) (fields name)) fun _ => .pure _
  case allOf =>
    intro site info base extension fields
    rw [translateNode]
    refine .bind (consists_takeName ..) fun name => ?_
    refine .bind (consists_buildClass _ _ _ _ (consists_translateBase aliases ..) ?_) fun _ =>
      .pure _
    cases extension with
    | none => exact .pure []
    | some body => exact fields name
  case arrayOfAnything =>
    intro site info minItems
    rw [translateNode]
    exact .pure _
  case array =>
    intro site info item minItems ofItem
    rw [translateNode]
    exact .bind ofItem fun _ => .pure _
  case tuple =>
    intro site info items minItems ofItems
    rw [translateNode]
    exact .bind ofItems fun _ => .pure _
  case union =>
    intro site info keyword variants ofVariants
    rw [translateNode]
    exact .bind ofVariants fun _ => .pure _
  case noNode =>
    intro site
    rw [translateNodes]
    exact .pure []
  case nextNode =>
    intro site node rest ofNode ofRest
    rw [translateNodes]
    exact .bind ofNode fun _ => .bind ofRest fun _ => .pure _
  case noProperty =>
    intro site
    rw [translateProperties]
    exact .pure []
  case ignored =>
    intro site property rest ignored ofRest
    rw [translateProperties, if_pos ignored]
    exact ofRest
  case nextProperty =>
    intro site property rest notIgnored ofType ofRest
    rw [translateProperties, if_neg notIgnored]
    exact .bind ofType fun _ => .bind ofRest fun _ => .pure _

theorem consists_followAlias (setting : Setting) (depth : Nat) (resolving : List Key)
    (declaration : Declaration) :
    Consists IsRoutine (followAlias setting depth resolving declaration) := by
  induction depth generalizing resolving declaration with
  | zero => exact .pure _
  | succ depth ih => exact (consists_translation ih).1 _ _

theorem consists_buildDeclaration (setting : Setting) (depth : Nat) (declaration : Declaration) :
    Consists IsRoutine (buildDeclaration setting depth declaration) := by
  have aliases := consists_followAlias setting depth
  refine .bind .poll fun _ => ?_
  dsimp only
  split
  · exact consists_buildClass _ _ _ _ (.pure none) ((consists_translation aliases).2.2 _ _)
  · refine consists_buildClass _ _ _ _ (consists_translateBase aliases ..) ?_
    split
    · exact (consists_translation aliases).2.2 _ _
    · exact .pure []
  · exact consists_buildEnum ..
  · exact .reportAt _ (.alias _) _ _

end Parts

end Analysis

end Typeloom
