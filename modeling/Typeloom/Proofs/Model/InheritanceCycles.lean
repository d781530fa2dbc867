import Typeloom.Proofs.Model.Inheritance
import Typeloom.Proofs.Model.Lineage
import Typeloom.Proofs.Report.Scripted

/-!
# Cutting cycles of inheritance

The classes are passed over in their order, and a class whose chain of bases does not end then
loses its base and is reported.  What is cut only ends chains, so that the chains of the classes
that lie behind go on ending.  After the passage every chain ends: no cycle is left, and no class
has lost its base whose chain ended from the start.
-/

namespace Typeloom

/-- A class without its base. -/
def ClassDefinition.underived (definition : ClassDefinition) : ClassDefinition :=
  { definition with base := none }

@[simp]
theorem ClassDefinition.name_underived (definition : ClassDefinition) :
    definition.underived.name = definition.name := rfl

namespace Analysis

open Reporting

section Cut

variable {classes cut : List ClassDefinition}

theorem exists_cut_of_mem (areCut : List.Forall₂ CutFrom classes cut)
    {definition : ClassDefinition} (occurs : definition ∈ classes) :
    ∃ left ∈ cut, CutFrom definition left := by
  induction areCut with
  | nil => cases occurs
  | @cons first second firsts seconds isCut areCut ih =>
      rcases List.mem_cons.mp occurs with rfl | later
      · exact ⟨second, List.mem_cons_self, isCut⟩
      · obtain ⟨left, isLeft, isCut⟩ := ih later
        exact ⟨left, List.mem_cons_of_mem second isLeft, isCut⟩

/-- A chain that ends goes on ending when classes lose their bases. -/
theorem ChainEnds.of_cut (areCut : List.Forall₂ CutFrom classes cut) {base : Option String}
    (ends : ChainEnds classes base) : ChainEnds cut base := by
  induction ends with
  | underived => exact .underived
  | unknown unknown =>
      refine .unknown fun left isLeft => ?_
      obtain ⟨original, occurs, isCut⟩ := exists_of_mem_cut areCut isLeft
      exact isCut.name_eq ▸ unknown original occurs
  | @next definition occurs _ ih =>
      obtain ⟨left, isLeft, isCut⟩ := exists_cut_of_mem areCut occurs
      rw [← isCut.name_eq]
      refine .next isLeft ?_
      rcases isCut with rfl | rfl
      · exact ih
      · exact .underived

/-- The classes that have lost their base. -/
def severed (classes cut : List ClassDefinition) : List ClassDefinition :=
  ((classes.zip cut).filter fun pair => pair.1.base.isSome && pair.2.base.isNone).map Prod.fst

theorem severed_cons_self (definition : ClassDefinition) (rest cut : List ClassDefinition) :
    severed (definition :: rest) (definition :: cut) = severed rest cut := by
  cases isBase : definition.base <;> simp [severed, isBase]

theorem severed_cons_underived {definition : ClassDefinition} (derives : definition.base ≠ none)
    (rest cut : List ClassDefinition) :
    severed (definition :: rest) (definition.underived :: cut) =
      definition :: severed rest cut := by
  have isDerived := Option.isSome_iff_ne_none.mpr derives
  simp [severed, isDerived, ClassDefinition.underived]

theorem eq_of_severed_eq_nil (areCut : List.Forall₂ CutFrom classes cut)
    (nothing : severed classes cut = []) : cut = classes := by
  induction areCut with
  | nil => rfl
  | @cons definition left rest lefts isCut _ ih =>
      cases isBase : definition.base with
      | none =>
          have keeps : left = definition := by
            rcases isCut with rfl | rfl
            · rfl
            · rw [← isBase]
          subst keeps
          rw [severed_cons_self] at nothing
          rw [ih nothing]
      | some base =>
          rcases isCut with rfl | rfl
          · rw [severed_cons_self] at nothing
            rw [ih nothing]
          · change severed _ (definition.underived :: _) = _ at nothing
            rw [severed_cons_underived (by simp [isBase])] at nothing
            cases nothing

/-- One class more in a list has lost its base. -/
theorem cutFrom_middle {done rest : List ClassDefinition} {definition : ClassDefinition}
    (areCut : List.Forall₂ CutFrom classes (done ++ definition :: rest)) :
    List.Forall₂ CutFrom classes (done ++ definition.underived :: rest) := by
  have atPlace : (done ++ definition :: rest)[done.length]? = some definition := by simp
  simpa [ClassDefinition.underived] using cutFrom_set areCut atPlace

end Cut

/-! ## The passage over the classes -/

/-- The passage over classes behind those that it has come over already: a class whose chain of
bases does not end loses its base. -/
inductive Severs : List ClassDefinition → List ClassDefinition → List ClassDefinition → Prop where
  | done {done : List ClassDefinition} : Severs done [] []
  | keeps {done rest cut : List ClassDefinition} {definition : ClassDefinition}
      (ends : ChainEnds (done ++ definition :: rest) definition.base)
      (severs : Severs (done ++ [definition]) rest cut) :
      Severs done (definition :: rest) (definition :: cut)
  | cuts {done rest cut : List ClassDefinition} {definition : ClassDefinition}
      (endless : ¬ChainEnds (done ++ definition :: rest) definition.base)
      (severs : Severs (done ++ [definition.underived]) rest cut) :
      Severs done (definition :: rest) (definition.underived :: cut)

section Passage

variable {done rest cut classes : List ClassDefinition} {definition : ClassDefinition}

theorem Severs.cutFrom (severs : Severs done rest cut) : List.Forall₂ CutFrom rest cut := by
  induction severs with
  | done => exact .nil
  | keeps _ _ ih => exact .cons (Or.inl rfl) ih
  | cuts _ _ ih => exact .cons (Or.inr rfl) ih

theorem Severs.unique {other : List ClassDefinition} (severs : Severs done rest cut)
    (seversToo : Severs done rest other) : cut = other := by
  induction severs generalizing other with
  | done =>
      cases seversToo
      rfl
  | keeps ends _ ih =>
      cases seversToo with
      | keeps _ severs => rw [ih severs]
      | cuts endless _ => exact absurd ends endless
  | cuts endless _ ih =>
      cases seversToo with
      | keeps ends _ => exact absurd ends endless
      | cuts _ severs => rw [ih severs]

/-- The chains of the classes behind go on ending when a class is kept whose own chain ends. -/
theorem chainEnds_behind_kept
    (behind : ∀ other ∈ done, ChainEnds (done ++ definition :: rest) other.base)
    (ends : ChainEnds (done ++ definition :: rest) definition.base) :
    ∀ other ∈ done ++ [definition], ChainEnds (done ++ [definition] ++ rest) other.base := by
  intro other isBehind
  rw [← List.append_cons]
  rcases List.mem_append.mp isBehind with earlier | isLast
  · exact behind other earlier
  · exact List.mem_singleton.mp isLast ▸ ends

/-- The chains of the classes behind go on ending when a class loses its base. -/
theorem chainEnds_behind_cut
    (behind : ∀ other ∈ done, ChainEnds (done ++ definition :: rest) other.base) :
    ∀ other ∈ done ++ [definition.underived],
      ChainEnds (done ++ [definition.underived] ++ rest) other.base := by
  have isCut := cutFrom_middle (List.forall₂_same.mpr fun (other : ClassDefinition)
    (_ : other ∈ done ++ definition :: rest) => (Or.inl rfl : CutFrom other other))
  intro other isBehind
  rw [← List.append_cons]
  rcases List.mem_append.mp isBehind with earlier | isLast
  · exact (behind other earlier).of_cut isCut
  · obtain rfl := List.mem_singleton.mp isLast
    exact .underived

/-- In the end the chains of all classes end, those of the classes behind for having done so
before. -/
theorem Severs.chainEnds (severs : Severs done rest cut)
    (behind : ∀ definition ∈ done, ChainEnds (done ++ rest) definition.base) :
    ∀ definition ∈ done ++ cut, ChainEnds (done ++ cut) definition.base := by
  induction severs with
  | done => simpa using behind
  | keeps ends _ ih =>
      rw [List.append_cons]
      exact ih (chainEnds_behind_kept behind ends)
  | cuts _ _ ih =>
      rw [List.append_cons]
      exact ih (chainEnds_behind_cut behind)

/-- A class whose chain of bases ended from the start does not lose its base. -/
theorem Severs.keeps_of_chainEnds (severs : Severs done rest cut)
    (areCut : List.Forall₂ CutFrom classes (done ++ rest)) :
    List.Forall₂ (fun definition left => ChainEnds classes definition.base → left = definition)
      rest cut := by
  induction severs with
  | done => exact .nil
  | keeps _ _ ih =>
      rw [List.append_cons] at areCut
      exact .cons (fun _ => rfl) (ih areCut)
  | cuts endless _ ih =>
      have further := cutFrom_middle areCut
      rw [List.append_cons] at further
      exact .cons (fun ends => absurd (ends.of_cut areCut) endless) (ih further)

/-- Where the chains of all classes end, none is cut. -/
theorem Severs.severed_eq_nil (severs : Severs done rest cut)
    (ends : ∀ definition ∈ rest, ChainEnds (done ++ rest) definition.base) :
    severed rest cut = [] := by
  induction severs with
  | done => rfl
  | keeps _ _ ih =>
      rw [severed_cons_self]
      rw [List.append_cons] at ends
      exact ih fun other isLater => ends other (List.mem_cons_of_mem _ isLater)
  | cuts endless => exact absurd (ends _ List.mem_cons_self) endless

/-- A class is cut just if there is a cycle. -/
theorem Severs.severed_ne_nil_iff (severs : Severs [] classes cut)
    (distinct : (classes.map ClassDefinition.name).Nodup) :
    severed classes cut ≠ [] ↔ ∃ name, Relation.TransGen (DerivesFrom classes) name name := by
  constructor
  · intro isCut
    by_contra acyclic
    refine isCut (severs.severed_eq_nil fun definition occurs => ?_)
    by_contra endless
    exact acyclic (exists_cycle_of_not_chainEnds occurs endless)
  · rintro ⟨name, cycle⟩ nothing
    obtain rfl := eq_of_severed_eq_nil severs.cutFrom nothing
    exact not_cycle_of_chainEnds distinct (severs.chainEnds (by simp)) name cycle

end Passage

/-! ## Cutting cycles -/

/-- The report that a class inherits from itself. -/
def circleReport (definition : ClassDefinition) : Diagnostic where
  severity := .error
  message := "class " ++ definition.name ++ " inherits from itself"
  systemId := some (Text.before '#' definition.source)

/-- A channel after one report for each of some classes. -/
def reportCircles (definitions : List ClassDefinition) (channel : Channel) : Channel :=
  definitions.foldl (fun channel definition => channel.notify .error (circleReport definition))
    channel

section Steps

variable {done rest : List ClassDefinition} {definition : ClassDefinition}

theorem cutAt_of_chainEnds
    (distinct : ((done ++ definition :: rest).map ClassDefinition.name).Nodup)
    (ends : ChainEnds (done ++ definition :: rest) definition.base) :
    cutAt (done ++ definition :: rest) done.length = pure (done ++ definition :: rest) := by
  have occurs : definition ∈ done ++ definition :: rest := by simp
  have isOver := mt (returns_eq_true_iff distinct occurs).mp (not_not_intro ends)
  have atPlace : (done ++ definition :: rest)[done.length]? = some definition := by simp
  rw [cutAt, atPlace]
  exact if_neg isOver

theorem onChannel_cutAt_of_endless
    (distinct : ((done ++ definition :: rest).map ClassDefinition.name).Nodup)
    (endless : ¬ChainEnds (done ++ definition :: rest) definition.base) (state : State)
    (channel : Channel) :
    onChannel ((cutAt (done ++ definition :: rest) done.length).run state) channel =
      (.ok (done ++ definition.underived :: rest, state),
        channel.notify .error (circleReport definition)) := by
  have occurs : definition ∈ done ++ definition :: rest := by simp
  have comesBack := (returns_eq_true_iff distinct occurs).mpr endless
  have atPlace : (done ++ definition :: rest)[done.length]? = some definition := by simp
  have isSet : (done ++ definition :: rest).set done.length definition.underived =
      done ++ definition.underived :: rest := by simp
  rw [cutAt, atPlace]
  dsimp only
  rw [if_pos comesBack, ← isSet]
  rfl

end Steps

/-- The cutting of cycles passes over the classes, and reports each class that it cuts. -/
theorem exists_severs (state : State) (rest : List ClassDefinition) :
    ∀ (done : List ClassDefinition) (channel : Channel),
      ((done ++ rest).map ClassDefinition.name).Nodup →
      ∃ cut, Severs done rest cut ∧
        onChannel (((List.range' done.length rest.length).foldlM cutAt (done ++ rest)).run state)
          channel = (.ok (done ++ cut, state), reportCircles (severed rest cut) channel) := by
  induction rest with
  | nil => exact fun done channel _ => ⟨[], .done, rfl⟩
  | cons definition rest ih =>
      intro done channel distinct
      rw [List.length_cons, List.range'_succ, List.foldlM_cons]
      by_cases ends : ChainEnds (done ++ definition :: rest) definition.base
      · have distinctOn := distinct
        rw [List.append_cons] at distinctOn
        obtain ⟨cut, severs, runs⟩ := ih (done ++ [definition]) channel distinctOn
        refine ⟨definition :: cut, .keeps ends severs, ?_⟩
        rw [cutAt_of_chainEnds distinct ends, pure_bind, severed_cons_self]
        simpa using runs
      · have distinctOn : ((done ++ [definition.underived] ++ rest).map
            ClassDefinition.name).Nodup := by simpa using distinct
        obtain ⟨cut, severs, runs⟩ := ih (done ++ [definition.underived])
          (channel.notify .error (circleReport definition)) distinctOn
        refine ⟨definition.underived :: cut, .cuts ends severs, ?_⟩
        have derives : definition.base ≠ none := fun underived => ends (underived ▸ .underived)
        rw [StateT.run_bind, onChannel_bind, onChannel_cutAt_of_endless distinct ends,
          severed_cons_underived derives]
        simpa [reportCircles] using runs

/-- The reports that some classes inherit from themselves. -/
def circles (definitions : List ClassDefinition) : Transcript :=
  definitions.map fun definition => .notify (circleReport definition)

theorem play_circles (definitions : List ClassDefinition) (channel : Channel) :
    Transcript.play (circles definitions) channel = .ok (reportCircles definitions channel) := by
  induction definitions generalizing channel with
  | nil => rfl
  | cons definition rest ih => exact ih _

/-- The cutting of cycles depends on the classes only. -/
theorem ends_cutCycles {classes : List ClassDefinition}
    (distinct : (classes.map ClassDefinition.name).Nodup) (state : State) :
    ∃ cut, Severs [] classes cut ∧
      Ends ((cutCycles 0 classes).run state) (circles (severed classes cut))
        (.ok (cut, state)) := by
  obtain ⟨cut, severs, -⟩ := exists_severs state classes [] {} distinct
  refine ⟨cut, severs, fun channel => ?_⟩
  obtain ⟨other, seversToo, runs⟩ := exists_severs state classes [] channel distinct
  obtain rfl := severs.unique seversToo
  rw [play_circles]
  exact runs

/-- In the end of an analysis all chains of bases end if the classes have different names. -/
theorem ensures_chainEnds (setting : Setting) :
    Ensures (analysis setting) {} fun _ after =>
      (after.classes.map ClassDefinition.name).Nodup →
        ∀ definition ∈ after.classes, ChainEnds after.classes definition.base := by
  refine ensures_bind fun _ _ declared _ _ => ?_
  refine ensures_bind (ensures_get (ensures_bind fun _ _ built _ _ => ?_))
  refine ensures_bind (ensures_get (ensures_bind fun channel cut after channel' cuts => ?_))
  refine ensures_modify fun (distinct : (cut.map ClassDefinition.name).Nodup) => ?_
  have areCut := (ensures_cutCycles 0 built.classes built cuts).2
  obtain ⟨other, severs, runs⟩ := exists_severs built built.classes [] channel
    (map_name_of_cutFrom areCut ▸ distinct)
  rw [cutCycles_eq] at cuts
  obtain rfl : other = cut := congrArg Prod.fst (Except.ok.inj
    (Prod.mk.inj (runs.symm.trans cuts)).1)
  exact severs.chainEnds (by simp)

/-- What classes are to those that are left of them when cycles are cut. -/
structure Cuts (classes cut : List ClassDefinition) : Prop where
  /-- A class changes at most by losing its base. -/
  cutFrom : List.Forall₂ CutFrom classes cut
  acyclic : ∀ name, ¬Relation.TransGen (DerivesFrom cut) name name
  /-- A class whose chain of bases ends does not change. -/
  keeps : List.Forall₂
    (fun definition left => ChainEnds classes definition.base → left = definition) classes cut
  severs_iff : severed classes cut ≠ [] ↔
    ∃ name, Relation.TransGen (DerivesFrom classes) name name

/-- The cutting of cycles comes to an end, since the walk from a class does so in whatever state the
cutting has brought the classes.  It leaves no cycle, cuts only where a chain of bases does not end,
and reports one error for each class that it cuts. -/
theorem cuts_of_cutCycles {classes : List ClassDefinition}
    (distinct : (classes.map ClassDefinition.name).Nodup) (state : State) (channel : Channel) :
    (∀ current, List.Forall₂ CutFrom classes current → ∀ definition ∈ current,
      Walks current [definition.name] definition.base
        (returns current (current.length + 1) [definition.name] definition.base)) ∧
    ∃ cut, onChannel ((cutCycles 0 classes).run state) channel =
        (.ok (cut, state), reportCircles (severed classes cut) channel) ∧ Cuts classes cut := by
  obtain ⟨cut, severs, runs⟩ := exists_severs state classes [] channel distinct
  have allEnd : ∀ definition ∈ cut, ChainEnds cut definition.base := severs.chainEnds (by simp)
  have distinctCut : (cut.map ClassDefinition.name).Nodup :=
    map_name_of_cutFrom severs.cutFrom ▸ distinct
  have same : List.Forall₂ CutFrom classes classes :=
    List.forall₂_same.mpr fun definition _ => Or.inl rfl
  refine ⟨fun current _ definition occurs => walks_from occurs, cut, runs, ?_⟩
  exact {
    cutFrom := severs.cutFrom
    acyclic := not_cycle_of_chainEnds distinctCut allEnd
    keeps := severs.keeps_of_chainEnds same
    severs_iff := severs.severed_ne_nil_iff distinct }

/-- Two classes that derive from each other, one that derives from these, and one whose base is not
known. -/
def circling : List ClassDefinition :=
  [("Leaf", "Left"), ("Left", "Right"), ("Right", "Left"), ("Item", "Unknown")].map
    fun (name, base) =>
      { name, package := .text "generated", base := some base, fields := [], description := .null
        source := "file:///work/loop.json#/definitions/" ++ name }

theorem cuts_circling : (circling.map ClassDefinition.name).Nodup ∧
    ∃ cut, onChannel ((cutCycles 0 circling).run {}) {} =
        (.ok (cut, {}), reportCircles (severed circling cut) {}) ∧ Cuts circling cut ∧
      cut.map ClassDefinition.base = [none, none, some "Left", some "Unknown"] := by
  have distinct : (circling.map ClassDefinition.name).Nodup := by decide
  obtain ⟨cut, runs, cuts⟩ := (cuts_of_cutCycles distinct {} {}).2
  have bases : (onChannel ((cutCycles 0 circling).run {}) {}).1.toOption.map
      (fun result => result.1.map ClassDefinition.base) =
        some [none, none, some "Left", some "Unknown"] := by
    decide +kernel
  rw [runs] at bases
  exact ⟨distinct, cut, runs, cuts, Option.some.inj bases⟩

end Analysis

end Typeloom
