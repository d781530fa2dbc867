import Typeloom.Proofs.Report.Receivers
import Typeloom.Proofs.Run.Alone

/-!
# Errors while loading

Loading searches for documents, parses them and analyzes what they hold.  The listener is told of
each error in these stages, and there is no model if and only if it is told of one.
-/

namespace Typeloom

open Reporting Transcript

namespace Loading

/-- How far loading comes, with the transcripts of searching for documents, of parsing them and of
the analysis.  A stage in which an error is reported is the last one. -/
inductive Stages (read : String → Except Fault (List UInt8)) (directory sources : List String)
    (request : Except Fault Analysis.Request) :
    Transcript → Transcript → Transcript → Option Model → Prop where
  | unread {searching : Transcript} :
      Ends (Forest.load read directory sources) searching (.ok none) → 0 < errors searching →
      Stages read directory sources request searching [] [] none
  | unparsed {searching parsing : Transcript} {forest : Forest} {documents : List Document} :
      Ends (Forest.load read directory sources) searching (.ok (some forest)) →
      errors searching = 0 → Ends (readDocuments forest.documents) parsing (.ok documents) →
      0 < errors parsing → Stages read directory sources request searching parsing [] none
  | analyzed {searching parsing analyzing : Transcript} {forest : Forest}
      {documents : List Document} {asked : Analysis.Request} {state : Analysis.State} :
      Ends (Forest.load read directory sources) searching (.ok (some forest)) →
      errors searching = 0 → Ends (readDocuments forest.documents) parsing (.ok documents) →
      errors parsing = 0 → request = .ok asked →
      Ends (Analysis.analyze { documents } asked) analyzing (.ok state) →
      Stages read directory sources request searching parsing analyzing
        (if 0 < errors analyzing then none else some state.model)

variable {read : String → Except Fault (List UInt8)} {directory sources : List String}
  {request : Except Fault Analysis.Request} {channel after : Channel} {model? : Option Model}

/-- There is no model if and only if an error is reported in one of the stages. -/
theorem Stages.eq_none_iff {searching parsing analyzing : Transcript}
    (stages : Stages read directory sources request searching parsing analyzing model?) :
    model? = none ↔ 0 < errors (searching ++ parsing ++ analyzing) := by
  cases stages with
  | unread _ someError => simpa using someError
  | unparsed _ _ _ someError => simp [errors_append]; omega
  | analyzed _ noError _ noFurther =>
      rw [errors_append, errors_append, noError, noFurther]
      simp

theorem exists_ends_of_load {forest? : Option Forest}
    (halts : channel.cancelAfter = none → Halts (loadModel read directory sources request))
    (returns : onChannel (Forest.load read directory sources) channel = (.ok forest?, after)) :
    ∃ searching, IsPlain searching ∧ (forest? = none ↔ 0 < errors searching) ∧
      Ends (Forest.load read directory sources) searching (.ok forest?) ∧
      after = apply searching channel := by
  have finite (never : channel.cancelAfter = none) :
      ¬Endless (Forest.load read directory sources) := by
    intro endless
    obtain ⟨_, _, ends⟩ := halts never
    exact ends.not_endless ((endless.bind _).bind _)
  obtain ⟨searching, ⟨isPlain, decides⟩, ends, isLast⟩ :=
    (Forest.scripted_load_iff read directory sources).exists_ends_of_returned returns finite
  exact ⟨searching, isPlain, decides _ rfl, ends, isLast⟩

theorem exists_ends_of_watching {α : Type} {action : Reporting α} {given : Prop} {post : α → Prop}
    {value : α} {hadError : Bool} (yields : Yields given post action)
    (returns : onChannel (watching action) channel = (.ok (value, hadError), after)) :
    ∃ transcript, IsPlain transcript ∧ Ends action transcript (.ok value) ∧
      after = apply transcript channel ∧ hadError = decide (0 < errors transcript) := by
  obtain ⟨transcript, result, isPlain, ends, -⟩ := yields
  obtain ⟨acts, -⟩ := of_onChannel_watching returns
  obtain ⟨rfl, isLast⟩ := ends.of_returned acts
  obtain ⟨isValue, -⟩ := ends.watching.of_returned returns
  exact ⟨transcript, isPlain, ends, isLast, (Prod.mk.inj (Except.ok.inj isValue)).2.symm⟩

/-- Loading comes to an end if the search for documents does. -/
theorem halts_loadModel (halts : Halts (Forest.load read directory sources)) :
    Halts (loadModel read directory sources request) := by
  have ofYields {α : Type} {action : Reporting α} {given : Prop} {post : α → Prop}
      (yields : Yields given post action) : Halts (watching action) := by
    obtain ⟨transcript, result, -, ends, -⟩ := yields
    exact ⟨transcript, _, ends.watching⟩
  refine Halts.bind (halts.bind fun forest? => ?library) fun library? => ?model
  case library =>
    cases forest? with
    | none => exact ⟨_, _, ends_pure none⟩
    | some forest =>
        exact (ofYields (yields_readDocuments forest.documents)).bind fun _ => ⟨_, _, ends_pure _⟩
  case model =>
    cases library? with
    | none => exact ⟨_, _, ends_pure none⟩
    | some library =>
        refine Halts.bind ⟨_, _, ends_ofExcept request⟩ fun asked => ?_
        exact (ofYields (Analysis.yields_analyze library asked)).bind fun _ => ⟨_, _, ends_pure _⟩

/-- Loading that returns has passed through its stages. -/
theorem exists_stages
    (halts : channel.cancelAfter = none → Halts (loadModel read directory sources request))
    (returns : onChannel (loadModel read directory sources request) channel =
      (.ok model?, after)) :
    ∃ searching parsing analyzing,
      Stages read directory sources request searching parsing analyzing model? ∧
        IsPlain (searching ++ parsing ++ analyzing) ∧
        after = apply (searching ++ parsing ++ analyzing) channel := by
  obtain ⟨library?, _, ofLibrary, rest⟩ := exists_of_onChannel_bind returns
  obtain ⟨forest?, _, loads, parses⟩ := exists_of_onChannel_bind ofLibrary
  obtain ⟨searching, searchingPlain, decides, searches, rfl⟩ := exists_ends_of_load halts loads
  cases forest? with
  | none =>
      cases parses
      cases rest
      refine ⟨searching, [], [], .unread searches (decides.mp rfl), ?_, ?_⟩
      · simpa using searchingPlain
      · rw [List.append_nil, List.append_nil]
  | some forest =>
      have noError : errors searching = 0 := by simpa using decides.not
      obtain ⟨⟨documents, hadError⟩, _, watched, last⟩ := exists_of_onChannel_bind parses
      obtain ⟨parsing, parsingPlain, areParsed, rfl, rfl⟩ :=
        exists_ends_of_watching (yields_readDocuments forest.documents) watched
      by_cases someError : 0 < errors parsing
      · simp only [someError, decide_true, if_true] at last
        cases last
        cases rest
        refine ⟨searching, parsing, [], .unparsed searches noError areParsed someError, ?_, ?_⟩
        · simpa using isPlain_append.mpr ⟨searchingPlain, parsingPlain⟩
        · rw [List.append_nil, apply_append]
      · simp only [someError, decide_false, Bool.false_eq_true, if_false] at last
        cases last
        obtain ⟨asked, _, isAsked, rest⟩ := exists_of_onChannel_bind rest
        obtain ⟨rfl, rfl⟩ := of_onChannel_ofExcept isAsked
        obtain ⟨⟨state, hadError⟩, _, watched, last⟩ := exists_of_onChannel_bind rest
        obtain ⟨analyzing, analyzingPlain, isAnalyzed, rfl, rfl⟩ :=
          exists_ends_of_watching (Analysis.yields_analyze _ asked) watched
        simp only [decide_eq_true_eq] at last
        cases last
        refine ⟨searching, parsing, analyzing,
          .analyzed searches noError areParsed (Nat.eq_zero_of_not_pos someError) rfl isAnalyzed,
          ?_, ?_⟩
        · exact isPlain_append.mpr
            ⟨isPlain_append.mpr ⟨searchingPlain, parsingPlain⟩, analyzingPlain⟩
        · rw [apply_append, apply_append]

/-- The receivers of the driver, of loading and of the parser, each of which passes on to the one
before it, after the stages of loading.  Only the parser reports to the last of them. -/
def receivers (channel : Channel) (hadError : Bool) (searching parsing analyzing : Transcript) :
    ReceiverChain :=
  let chain : ReceiverChain := { channel := some channel, latches := [hadError, false, false] }
  ((chain.hearAll 1 searching).hearAll 2 parsing).hearAll 1 analyzing

theorem Stages.receivers_eq {searching parsing analyzing : Transcript}
    (stages : Stages read directory sources request searching parsing analyzing model?)
    (channel : Channel) (hadError : Bool) :
    receivers channel hadError searching parsing analyzing =
      { channel := some (apply (searching ++ parsing ++ analyzing) channel)
        latches := [hadError || model?.isNone, model?.isNone, decide (0 < errors parsing)] } := by
  have nothing : errors [] = 0 := rfl
  simp only [receivers, ReceiverChain.hearAll_eq, Option.map_some, apply_append]
  cases stages with
  | unread _ someError => simp [someError, nothing, ReceiverChain.latchUpTo]
  | unparsed _ noError _ someError => simp [noError, someError, nothing, ReceiverChain.latchUpTo]
  | analyzed _ noError _ noFurther =>
      simp only [noError, noFurther]
      split <;> simp [ReceiverChain.latchUpTo]

/-- The listener is told of each error in the stages of loading, once and in their order, and there
is no model if and only if it is told of an error.  The receiver of loading knows that. -/
theorem errors_of_loadModel
    (halts : channel.cancelAfter = none → Halts (loadModel read directory sources request))
    (returns : onChannel (loadModel read directory sources request) channel =
      (.ok model?, after)) :
    ∃ searching parsing analyzing told,
      Stages read directory sources request searching parsing analyzing model? ∧
        after.events = channel.events ++ told ∧
        told.filter Event.isError =
          errorEvents searching ++ errorEvents parsing ++ errorEvents analyzing ∧
        (model? = none ↔ ∃ event ∈ told, event.isError = true) ∧
        ∀ hadError, receivers channel hadError searching parsing analyzing =
          { channel := some after
            latches := [hadError || model?.isNone, model?.isNone,
              decide (0 < errors parsing)] } := by
  obtain ⟨searching, parsing, analyzing, stages, isPlain, rfl⟩ := exists_stages halts returns
  obtain ⟨told, isTold, areErrors⟩ := exists_told_of_isPlain isPlain channel
  refine ⟨searching, parsing, analyzing, told, stages, isTold, ?_, ?_, stages.receivers_eq channel⟩
  · rw [areErrors, errorEvents, List.filterMap_append, List.filterMap_append]
    rfl
  · have counts : 0 < (told.filter Event.isError).length ↔
        ∃ event ∈ told, event.isError = true := by
      rw [← List.countP_eq_length_filter, List.countP_pos_iff]
    rw [← counts, areErrors, length_errorEvents]
    exact stages.eq_none_iff

end Loading

/-! ## A document with an error -/

/-- A document with a definition that is no object. -/
def misplacedNumber : Json.Members :=
  [("definitions", .object [("A", .integer 5)])]

def readMisplacedNumber (_ : String) : Except Fault (List UInt8) :=
  .ok "\x7b\"definitions\": \x7b\"A\": 5\x7d\x7d".toUTF8.toList

theorem Forest.members?_misplacedNumber :
    members? readMisplacedNumber "file:///a" = some misplacedNumber := by
  decide +kernel

theorem Forest.externalReferences_misplacedNumber :
    externalReferences (.object misplacedNumber) = [] := by
  decide +kernel

namespace Loading

theorem loadModel_misplacedNumber : ∃ after,
    onChannel (loadModel readMisplacedNumber [] ["file:///a"] (.ok {})) { quiet := true } =
      (.ok none, after) := by
  have isNone : ((onChannel (loadModel readMisplacedNumber [] ["file:///a"] (.ok {}))
      { quiet := true }).1.toOption.map Option.isNone) = some true := by
    rw [loadModel_alone (by rfl) (Forest.members?_eq_some_iff.mp Forest.members?_misplacedNumber)
      Forest.externalReferences_misplacedNumber]
    decide +kernel
  rcases outcome : onChannel (loadModel readMisplacedNumber [] ["file:///a"] (.ok {}))
    { quiet := true } with ⟨stop | model?, after⟩
  · rw [outcome] at isNone
    cases isNone
  · rw [outcome] at isNone
    cases model? with
    | none => exact ⟨after, rfl⟩
    | some model => cases isNone

theorem errors_of_loadModel_misplacedNumber : ∃ after searching parsing analyzing told,
    onChannel (loadModel readMisplacedNumber [] ["file:///a"] (.ok {})) { quiet := true } =
        (.ok none, after) ∧
      Stages readMisplacedNumber [] ["file:///a"] (.ok {}) searching parsing analyzing none ∧
        after.events = [] ++ told ∧
        told.filter Event.isError =
          errorEvents searching ++ errorEvents parsing ++ errorEvents analyzing ∧
        ((none : Option Model) = none ↔ ∃ event ∈ told, event.isError = true) ∧
        ∀ hadError, receivers { quiet := true } hadError searching parsing analyzing =
          { channel := some after
            latches := [hadError || true, true, decide (0 < errors parsing)] } := by
  have isRead := Forest.members?_eq_some_iff.mp Forest.members?_misplacedNumber
  have halts : Halts (loadModel readMisplacedNumber [] ["file:///a"] (.ok {})) :=
    halts_loadModel ⟨_, _, Forest.ends_load_alone (by rfl) isRead
      Forest.externalReferences_misplacedNumber⟩
  obtain ⟨after, returns⟩ := loadModel_misplacedNumber
  obtain ⟨searching, parsing, analyzing, told, stages⟩ :=
    errors_of_loadModel (fun _ => halts) returns
  exact ⟨after, searching, parsing, analyzing, told, returns, stages⟩

end Loading

end Typeloom
