import Typeloom.Proofs.Model.Composition
import Typeloom.Proofs.Model.Fates
import Typeloom.Proofs.Model.TypeNames

/-!
# Classes that are said to inherit from themselves

A class is reported when the chain of its bases runs into a cycle, be it one that the class is on or
one that it leads to.  What is cut before it takes cycles away: a class whose chain comes through a
class in front of it is not reported.  So the first class on a cycle is reported unless a class in
front of it has been reported in its place, and a class that only leads to a cycle is reported if it
stands in front of all classes that it derives from.
-/

namespace Typeloom

/-- Whether something is reported with a message. -/
def Transcript.Says (transcript : Transcript) (message : String) : Prop :=
  ∃ diagnostic, Act.notify diagnostic ∈ transcript ∧ diagnostic.message = message

theorem Transcript.says_append {first rest : Transcript} {message : String} :
    (first ++ rest).Says message ↔ first.Says message ∨ rest.Says message := by
  simp only [Says, List.mem_append, or_and_right, exists_or]

/-- The message of an error. -/
def Event.errorMessage? : Event → Option String
  | .diagnosed .error diagnostic => some diagnostic.message
  | _ => none

namespace Analysis

open Reporting

/-- The classes in front of the one with a name. -/
def classesBefore (classes : List ClassDefinition) (name : String) : List ClassDefinition :=
  classes.takeWhile (·.name ≠ name)

/-- Whether a class derives from classes, at once or through others, some of which are on a cycle,
and stands in front of all of them. -/
structure IsBlamed (classes : List ClassDefinition) (definition : ClassDefinition) : Prop where
  exists_cycle : ∃ name, Relation.ReflTransGen (DerivesFrom classes) definition.name name ∧
    Relation.TransGen (DerivesFrom classes) name name
  isFirst : ∀ earlier ∈ classesBefore classes definition.name,
    ¬Relation.TransGen (DerivesFrom classes) definition.name earlier.name

section Chains

variable {classes front done rest cut : List ClassDefinition} {definition : ClassDefinition}

theorem classesBefore_of_append
    (distinct : ((front ++ definition :: rest).map ClassDefinition.name).Nodup) :
    classesBefore (front ++ definition :: rest) definition.name = front := by
  have differ : ∀ earlier ∈ front, decide (earlier.name ≠ definition.name) = true := by
    intro earlier occurs
    rw [List.map_append, List.map_cons, List.nodup_append] at distinct
    exact decide_eq_true (distinct.2.2 _ (List.mem_map_of_mem occurs) _ List.mem_cons_self)
  rw [classesBefore, List.takeWhile_append_of_pos differ, List.takeWhile_cons_of_neg (by simp),
    List.append_nil]

/-- A class is on a cycle or leads to one just if the chain of its bases does not end. -/
theorem exists_cycle_iff_not_chainEnds (distinct : (classes.map ClassDefinition.name).Nodup)
    (occurs : definition ∈ classes) :
    (∃ name, Relation.ReflTransGen (DerivesFrom classes) definition.name name ∧
        Relation.TransGen (DerivesFrom classes) name name) ↔
      ¬ChainEnds classes definition.base := by
  constructor
  · rintro ⟨name, path, cycle⟩ ends
    exact ((ChainEnds.next occurs ends).reaches distinct path).not_cycle distinct cycle
  · intro endless
    obtain ⟨base, isBase, name, path, cycle⟩ :=
      exists_cycle_of_returns occurs ((returns_eq_true_iff distinct occurs).mpr endless)
    exact ⟨name, .head ⟨definition, occurs, rfl, isBase⟩ path, cycle⟩

theorem transGen_derivesFrom_iff (distinct : (classes.map ClassDefinition.name).Nodup)
    (occurs : definition ∈ classes) {last : String} :
    Relation.TransGen (DerivesFrom classes) definition.name last ↔
      ∃ base ∈ definition.base, Relation.ReflTransGen (DerivesFrom classes) base last := by
  rw [Relation.TransGen.head'_iff]
  refine exists_congr fun base => and_congr_left fun _ => ?_
  constructor
  · rintro ⟨other, isOther, named, isBase⟩
    obtain rfl := List.inj_on_of_nodup_map distinct isOther occurs named
    exact isBase
  · exact fun isBase => ⟨definition, occurs, rfl, isBase⟩

/-- The bases of the classes that have been passed are cut so that their chains end. -/
structure IsPassed (front done rest : List ClassDefinition) : Prop where
  cutFrom : List.Forall₂ CutFrom front done
  ends : ∀ definition ∈ done, ChainEnds (done ++ rest) definition.base

theorem IsPassed.areCut (passed : IsPassed front done rest) :
    List.Forall₂ CutFrom (front ++ rest) (done ++ rest) :=
  List.rel_append passed.cutFrom (List.forall₂_same.mpr fun _ _ => Or.inl rfl)

/-- A chain ends when it comes to a class that has been passed. -/
theorem IsPassed.chainEnds_of_reaches (passed : IsPassed front done rest) {name : String}
    {earlier : ClassDefinition} (isEarlier : earlier ∈ front)
    (path : Relation.ReflTransGen (DerivesFrom (front ++ rest)) name earlier.name) :
    ChainEnds (done ++ rest) (some name) := by
  induction path using Relation.ReflTransGen.head_induction_on with
  | refl =>
      obtain ⟨left, isLeft, isCut⟩ := exists_cut_of_mem passed.cutFrom isEarlier
      rw [← isCut.name_eq]
      exact .next (List.mem_append_left _ isLeft) (passed.ends left isLeft)
  | head derives _ ih =>
      obtain ⟨definition, occurs, rfl, isBase⟩ := derives
      obtain ⟨left, isLeft, isCut⟩ := exists_cut_of_mem passed.areCut occurs
      rw [← isCut.name_eq]
      refine .next isLeft ?_
      rcases isCut with rfl | rfl
      · exact isBase ▸ ih
      · exact .underived

/-- A chain that ends has ended from the start if it does not come to a class that has been
passed. -/
theorem IsPassed.chainEnds_of_avoids (passed : IsPassed front done rest) {base : Option String}
    (ends : ChainEnds (done ++ rest) base)
    (avoids : ∀ name ∈ base, ∀ earlier ∈ front,
      ¬Relation.ReflTransGen (DerivesFrom (front ++ rest)) name earlier.name) :
    ChainEnds (front ++ rest) base := by
  induction ends with
  | underived => exact .underived
  | unknown unknown =>
      refine .unknown fun definition occurs => ?_
      obtain ⟨left, isLeft, isCut⟩ := exists_cut_of_mem passed.areCut occurs
      exact isCut.name_eq ▸ unknown left isLeft
  | @next definition occurs _ ih =>
      rcases List.mem_append.mp occurs with isDone | isLater
      · obtain ⟨original, isOriginal, isCut⟩ := exists_of_mem_cut passed.cutFrom isDone
        rw [isCut.name_eq] at avoids
        exact absurd .refl (avoids _ rfl original isOriginal)
      · have inFront : definition ∈ front ++ rest := List.mem_append_right _ isLater
        refine .next inFront (ih fun name isBase earlier isEarlier path => ?_)
        exact avoids _ rfl earlier isEarlier (.head ⟨definition, inFront, rfl, isBase⟩ path)

/-- The chain of a class that the passage comes to ends just if the class is not blamed. -/
theorem IsPassed.chainEnds_iff (passed : IsPassed front done (definition :: rest))
    (distinct : ((front ++ definition :: rest).map ClassDefinition.name).Nodup) :
    ChainEnds (done ++ definition :: rest) definition.base ↔
      ¬IsBlamed (front ++ definition :: rest) definition := by
  have occurs : definition ∈ front ++ definition :: rest := by simp
  have isBefore := classesBefore_of_append distinct
  have reaches {last : String} := @transGen_derivesFrom_iff _ _ distinct occurs last
  constructor
  · intro ends blamed
    refine (exists_cycle_iff_not_chainEnds distinct occurs).mp blamed.exists_cycle
      (passed.chainEnds_of_avoids ends fun base isBase earlier isEarlier path => ?_)
    exact blamed.isFirst earlier (isBefore.symm ▸ isEarlier) (reaches.mpr ⟨base, isBase, path⟩)
  · intro notBlamed
    by_cases ends : ChainEnds (front ++ definition :: rest) definition.base
    · exact ends.of_cut passed.areCut
    · have isBehind : ∃ earlier ∈ front, Relation.TransGen
          (DerivesFrom (front ++ definition :: rest)) definition.name earlier.name := by
        by_contra isFirst
        push Not at isFirst
        exact notBlamed ⟨(exists_cycle_iff_not_chainEnds distinct occurs).mpr ends,
          fun earlier isEarlier => isFirst earlier (isBefore ▸ isEarlier)⟩
      obtain ⟨earlier, isEarlier, path⟩ := isBehind
      obtain ⟨base, isBase, path⟩ := reaches.mp path
      exact Option.mem_def.mp isBase ▸ passed.chainEnds_of_reaches isEarlier path

/-- The passage goes on behind a class whose chain ends. -/
theorem IsPassed.keeps (passed : IsPassed front done (definition :: rest))
    (ends : ChainEnds (done ++ definition :: rest) definition.base) :
    IsPassed (front ++ [definition]) (done ++ [definition]) rest where
  cutFrom := List.rel_append passed.cutFrom (.cons (Or.inl rfl) .nil)
  ends := chainEnds_behind_kept passed.ends ends

/-- The passage goes on behind a class that has lost its base. -/
theorem IsPassed.cuts (passed : IsPassed front done (definition :: rest)) :
    IsPassed (front ++ [definition]) (done ++ [definition.underived]) rest where
  cutFrom := List.rel_append passed.cutFrom (.cons (Or.inr rfl) .nil)
  ends := chainEnds_behind_cut passed.ends

/-- The passage cuts the classes that are blamed. -/
theorem Severs.mem_severed_iff (severs : Severs done rest cut) (passed : IsPassed front done rest)
    (distinct : ((front ++ rest).map ClassDefinition.name).Nodup) :
    definition ∈ severed rest cut ↔ definition ∈ rest ∧ IsBlamed (front ++ rest) definition := by
  induction severs generalizing front with
  | done => simp [severed]
  | @keeps done rest cut first ends _ ih =>
      have notBlamed := (passed.chainEnds_iff distinct).mp ends
      have ofRest := @ih (front ++ [first]) (passed.keeps ends) (by simpa using distinct)
      rw [severed_cons_self, ofRest, ← List.append_cons, List.mem_cons, or_and_right]
      refine (or_iff_right ?_).symm
      rintro ⟨rfl, blamed⟩
      exact notBlamed blamed
  | @cuts done rest cut first endless _ ih =>
      have blamed := not_not.mp (mt (passed.chainEnds_iff distinct).mpr endless)
      have ofRest := @ih (front ++ [first]) passed.cuts (by simpa using distinct)
      have derives : first.base ≠ none := fun underived => endless (underived ▸ .underived)
      rw [severed_cons_underived derives, List.mem_cons, ofRest, ← List.append_cons, List.mem_cons,
        or_and_right]
      exact or_congr_left (and_iff_left_of_imp fun same => same ▸ blamed).symm

end Chains

/-! ## Reports -/

/-- The message that a class inherits from itself. -/
def circleMessage (name : String) : String :=
  "class " ++ name ++ " inherits from itself"

/-- No other message of the analysis is this one: where it goes on with a name, a quote follows. -/
theorem not_isRoutine_circleMessage {name : String} (isTypeName : Naming.IsTypeName name) :
    ¬IsRoutine (circleMessage name) := by
  generalize isMessage : circleMessage name = message
  intro isRoutine
  have texts := congrArg String.toList isMessage
  cases isRoutine with
  | collides other source =>
      have texts := congrArg (fun text => (text.drop 6).dropWhile Char.isAlphanum) texts
      simp [circleMessage, List.dropWhile_append_of_pos isTypeName.isAlphanum] at texts
  | _ =>
      have texts := congrArg (List.take 2) texts
      simp [circleMessage] at texts

/-- What a step reports that is put together from parts is of the kind that the parts report. -/
theorem Consists.recounts {α : Type} {kind : String → Prop} {step : Step α}
    (consists : Consists kind step) (state : State) :
    Recounts (fun act => ∀ diagnostic, act = .notify diagnostic → kind diagnostic.message) step
      state fun _ _ _ => True := by
  induction consists generalizing state with
  | pure value => exact recounts_pure trivial
  | bind first rest ofFirst ofRest =>
      exact recounts_bind ((ofFirst state).mono fun _ value after _ => ofRest value after)
  | get => exact recounts_get trivial
  | set next => exact recounts_set trivial
  | modify change => exact recounts_modify trivial
  | orFault result => exact recounts_orFault fun _ _ => trivial
  | poll => exact recounts_liftM (chronicles_poll (fun _ isNotify => nomatch isNotify) trivial)
  | reportAt severity isSaid systemId pointer =>
      refine recounts_reportAt ?_ trivial
      rintro _ ⟨⟩
      exact isSaid

theorem Consists.exists_ends {α : Type} {kind : String → Prop} {step : Step α}
    (consists : Consists kind step) {start finish : State × Channel} {value : α}
    (leads : Leads step start value finish) :
    ∃ transcript, Ends (step.run start.1) transcript (.ok (value, finish.1)) ∧
      ∀ message, transcript.Says message → kind message := by
  obtain ⟨transcript, result, ends, areSaid, -⟩ := consists.recounts start.1
  obtain ⟨rfl, -⟩ := ends.of_returned leads
  refine ⟨transcript, ends, ?_⟩
  rintro _ ⟨diagnostic, occurs, rfl⟩
  exact areSaid _ occurs diagnostic rfl

/-! ## The whole analysis -/

/-- The classes as they are built, before any of them loses its base. -/
def resolution (setting : Setting) : Step (List ClassDefinition) := do
  declareAll setting
  buildAll setting (← get).declarations
  return (← get).classes

theorem consists_declareAll (setting : Setting) :
    Consists IsRoutine (declareAll setting) := by
  rw [declareAll, declareAll_eq]
  exact consists_forM fun _ => consists_declare ..

theorem consists_buildAll (setting : Setting) (declared : Table Key Declaration) :
    Consists IsRoutine (buildAll setting declared) :=
  consists_forM fun _ => consists_buildDeclaration ..

theorem says_circles_iff {classes : List ClassDefinition} {name : String} :
    (circles classes).Says (circleMessage name) ↔
      ∃ definition ∈ classes, definition.name = name := by
  have injective {name other : String} :
      circleMessage name = circleMessage other ↔ name = other := by
    rw [circleMessage, circleMessage, String.append_left_inj, String.append_right_inj]
  constructor
  · rintro ⟨diagnostic, occurs, same⟩
    obtain ⟨definition, isClass, isReport⟩ := List.mem_map.mp occurs
    obtain rfl := Act.notify.inj isReport
    exact ⟨definition, isClass, injective.mp same⟩
  · rintro ⟨definition, isClass, rfl⟩
    exact ⟨circleReport definition, List.mem_map_of_mem isClass, rfl⟩

/-- A class is said to inherit from itself just if it is blamed for a cycle of the classes as they
are built. -/
theorem says_circle_iff_of_analyze {library : Library} {request : Request}
    {channel channel' : Channel} {result : State}
    (returned : (analyze library request).onChannel channel = (.ok result, channel')) :
    ∃ classes built before after,
      Ends ((resolution { library, request }).run {}) before (.ok (classes, built)) ∧
      Ends (analyze library request) (before ++ after) (.ok result) ∧
      List.Forall₂ CutFrom classes result.classes ∧
      ∀ definition ∈ classes,
        ((before ++ after).Says (circleMessage definition.name) ↔ IsBlamed classes definition) := by
  have wellNamed := of_analyze_eq_ok (ensures_wellNamed _) returned
  have typeNames := isTypeName_of_analyze returned
  obtain ⟨declared, built, cut, middle, further, declares, builds, cuts, areCut, rfl⟩ :=
    exists_passes returned
  obtain ⟨declaring, endsDeclaring, ofDeclaring⟩ := (consists_declareAll _).exists_ends declares
  obtain ⟨building, endsBuilding, ofBuilding⟩ := (consists_buildAll _ _).exists_ends builds
  have distinct : (built.classes.map ClassDefinition.name).Nodup := by
    rw [← map_name_of_cutFrom areCut]
    exact wellNamed.nodup.of_append_left
  obtain ⟨left, severs, endsCutting⟩ := ends_cutCycles distinct built
  obtain ⟨isCut, -⟩ := endsCutting.of_returned cuts
  obtain ⟨rfl, -⟩ := Prod.mk.inj (Except.ok.inj isCut)
  have isSevered (other : ClassDefinition) :
      other ∈ severed built.classes left ↔ other ∈ built.classes ∧ IsBlamed built.classes other :=
    severs.mem_severed_iff ⟨.nil, by simp⟩ distinct
  refine ⟨built.classes, built, declaring ++ building, circles (severed built.classes left),
    ?resolves, ends_analyze endsDeclaring endsBuilding endsCutting, areCut, ?blames⟩
  case resolves =>
    rw [resolution, StateT.run_bind]
    apply endsDeclaring.bind
    rw [StateT.run_bind]
    apply (ends_pure _).bind
    rw [StateT.run_bind]
    exact endsBuilding.bind_last (ends_pure _)
  case blames =>
    intro definition occurs
    have isTypeName : Naming.IsTypeName definition.name := by
      obtain ⟨left, isLeft, isCut⟩ := exists_cut_of_mem areCut occurs
      have isName := typeNames (.ofClass left)
        (List.mem_append_left _ (List.mem_map_of_mem isLeft))
      exact isCut.name_eq ▸ isName
    have notRoutine := not_isRoutine_circleMessage isTypeName
    rw [Transcript.says_append, Transcript.says_append,
      or_iff_right (not_or.mpr ⟨mt (ofDeclaring _) notRoutine, mt (ofBuilding _) notRoutine⟩),
      says_circles_iff]
    constructor
    · rintro ⟨other, isOther, sameName⟩
      obtain ⟨isClass, blamed⟩ := (isSevered other).mp isOther
      obtain rfl := List.inj_on_of_nodup_map distinct isClass occurs sameName
      exact blamed
    · intro blamed
      exact ⟨definition, (isSevered definition).mpr ⟨occurs, blamed⟩, rfl⟩

/-- A definition that derives from another one. -/
def derivation (name base : String) : Definition where
  name := name
  pointer := "#/definitions/" ++ name
  body := .allOf { pointer := "#/definitions/" ++ name }
    (some
      { info := { pointer := "#/definitions/" ++ name ++ "/allOf/0" }
        target := .text ("#/definitions/" ++ base) })
    none

/-- Two definitions that derive from each other, and in front of them one that derives from the
first. -/
def leafOfLoop : Library where
  documents :=
    [{ systemId := "file:///loop.json"
       rootName := "loop"
       root := none
       definitions :=
         [derivation "Leaf" "Left", derivation "Left" "Right", derivation "Right" "Left"]
       package := .null }]

theorem resolution_leafOfLoop :
    (onChannel ((resolution { library := leafOfLoop, request := {} }).run {}) {}).1.toOption.map
      (fun outcome => outcome.1.map fun definition => (definition.name, definition.base)) =
    some [("Leaf", some "Left"), ("Left", some "Right"), ("Right", some "Left")] := by
  decide +kernel

theorem says_circle_leafOfLoop : ∃ result channel classes before after,
    (analyze leafOfLoop {}).onChannel {} = (.ok result, channel) ∧
      Ends (analyze leafOfLoop {}) (before ++ after) (.ok result) ∧
      ∃ leaf ∈ classes, leaf.name = "Leaf" ∧ leaf.base = some "Left" ∧
        ((before ++ after).Says (circleMessage leaf.name) ↔ IsBlamed classes leaf) := by
  have returns : ((analyze leafOfLoop {}).onChannel {}).1.toOption.isSome = true := by
    decide +kernel
  rcases returned : (analyze leafOfLoop {}).onChannel {} with ⟨stop | result, channel⟩
  · rw [returned] at returns
    cases returns
  · obtain ⟨classes, built, before, after, resolves, ends, -, blames⟩ :=
      says_circle_iff_of_analyze returned
    have views := resolution_leafOfLoop
    rcases ran : onChannel ((resolution { library := leafOfLoop, request := {} }).run {}) {}
      with ⟨stop | outcome, between⟩
    · rw [ran] at views
      cases views
    · obtain ⟨isOutcome, -⟩ := resolves.of_returned ran
      obtain rfl := Except.ok.inj isOutcome
      rw [ran] at views
      obtain ⟨leaf, rest, rfl, isLeaf, -⟩ := List.map_eq_cons_iff.mp (Option.some.inj views)
      obtain ⟨isName, isBase⟩ := Prod.mk.inj isLeaf
      exact ⟨result, channel, _, before, after, rfl, ends, leaf, List.mem_cons_self, isName, isBase,
        blames leaf List.mem_cons_self⟩

/-- The class in front of the loop is said to inherit from itself although it does not. -/
theorem not_ancestor_leafOfLoop : ∃ result channel classes built between,
    (analyze leafOfLoop {}).onChannel {} = (.ok result, channel) ∧
      channel.events.filterMap Event.errorMessage? =
        ["class Leaf inherits from itself", "class Left inherits from itself"] ∧
      onChannel ((resolution { library := leafOfLoop, request := {} }).run {}) {} =
        (.ok (classes, built), between) ∧
      ¬Relation.TransGen (DerivesFrom classes) "Leaf" "Leaf" := by
  have views := resolution_leafOfLoop
  have returns : ((analyze leafOfLoop {}).onChannel {}).1.toOption.isSome = true ∧
      ((analyze leafOfLoop {}).onChannel {}).2.events.filterMap Event.errorMessage? =
        ["class Leaf inherits from itself", "class Left inherits from itself"] := by
    decide +kernel
  rcases returned : (analyze leafOfLoop {}).onChannel {} with ⟨stop | result, channel⟩
  · rw [returned] at returns
    cases returns.1
  · rcases ran : onChannel ((resolution { library := leafOfLoop, request := {} }).run {}) {}
      with ⟨stop | ⟨classes, built⟩, between⟩
    · rw [ran] at views
      cases views
    · rw [ran] at views
      rw [returned] at returns
      have bases : classes.map ClassDefinition.base = [some "Left", some "Right", some "Left"] := by
        have seconds := congrArg (List.map Prod.snd) (Option.some.inj views)
        rwa [List.map_map] at seconds
      refine ⟨result, channel, classes, built, between, rfl, returns.2, rfl, fun cycle => ?_⟩
      obtain ⟨_, -, definition, occurs, -, isBase⟩ := Relation.TransGen.tail'_iff.mp cycle
      have isListed : some "Leaf" ∈ classes.map ClassDefinition.base :=
        isBase ▸ List.mem_map_of_mem occurs
      rw [bases] at isListed
      exact absurd isListed (by decide)

end Analysis

end Typeloom
