import Typeloom.Proofs.Report.Scripted
import Typeloom.Proofs.Schema.Closure

/-!
# The script of a growing forest

A forest grows step by step.  Each step polls the listener or leaves one address less to be looked
at, so that a growth which does not end polls the listener again and again.  There is a forest in
the end only if no error was reported on the way.
-/

namespace Typeloom

namespace Forest

open Reporting Transcript

/-- What is found from sources can be accessed: each address leads to a document or to a failure
that is reported, and the references lead to addresses. -/
structure Accessible (read : String → Except Fault (List UInt8)) (roots : List String) : Prop where
  reads : ∀ systemId, Found read roots systemId → ∃ outcome, reading read systemId = .ok outcome
  resolves : ∀ systemId members, Found read roots systemId →
    reading read systemId = .ok (.ok members) →
    ∀ reference ∈ externalReferences (.object members),
      ∃ target, Uri.documentOf systemId reference = .ok target

variable {read : String → Except Fault (List UInt8)} {roots : List String}

theorem Accessible.explorable (accessible : Accessible read roots)
    (finite : {systemId | Found read roots systemId}.Finite) : Explorable read roots :=
  ⟨finite, accessible.reads, accessible.resolves⟩

/-- Reading a document reports one error if there is no document. -/
theorem ends_readDocument (read : String → Except Fault (List UInt8)) (systemId : String) :
    ∃ transcript result, IsPlain transcript ∧
      Reporting.Ends (readDocument read systemId) transcript result ∧
        (∀ members, result = .ok (some members) →
          errors transcript = 0 ∧ reading read systemId = .ok (.ok members)) ∧
        (result = .ok none → errors transcript = 1) ∧
        ((∃ outcome, reading read systemId = .ok outcome) → ∃ members?, result = .ok members?) := by
  unfold readDocument
  cases isReading : reading read systemId with
  | error fault =>
      refine ⟨[], .error fault, isPlain_nil, (ends_ofExcept _).bind_error _, ?_, (nomatch ·), ?_⟩
      · rintro members ⟨⟩
      · rintro ⟨outcome, ⟨⟩⟩
  | ok outcome =>
      cases outcome with
      | ok members =>
          refine ⟨[], _, isPlain_nil, (ends_ofExcept _).bind (ends_pure _), ?_, (nomatch ·),
            fun _ => ⟨_, rfl⟩⟩
          rintro _ ⟨⟩
          exact ⟨rfl, rfl⟩
      | error diagnostic =>
          refine ⟨[.notify diagnostic], .ok none, by simp [IsPlain, Act.IsPlain],
            (ends_ofExcept _).bind ((ends_notify diagnostic).bind (ends_pure _)), ?_, ?_,
            fun _ => ⟨_, rfl⟩⟩
          · rintro members ⟨⟩
          · simp [errors, Act.isError, (isError_of_reading isReading).1]

/-- One error has been reported for each address that could not be read, and nothing is pending or
read but what is found. -/
structure Growth.Fits (read : String → Except Fault (List UInt8)) (roots : List String)
    (growth : Growth) (past : Transcript) : Prop where
  errors_eq : errors past = growth.failed.length
  pending : ∀ candidate ∈ growth.pending, Found read roots candidate.systemId
  documents : ∀ entry ∈ growth.documents,
    Found read roots entry.1 ∧ reading read entry.1 = .ok (.ok entry.2)

theorem Growth.fits_ofRoots (read : String → Except Fault (List UInt8)) (roots : List String) :
    (Growth.ofRoots roots).Fits read roots [] where
  errors_eq := rfl
  pending candidate isPending := by
    obtain ⟨systemId, isRoot, rfl⟩ := List.mem_map.mp isPending
    exact .source isRoot
  documents _ isRead := nomatch isRead

/-- What is added to the documents and to what is pending is found. -/
theorem Growth.Fits.grown {growth : Growth} {past transcript : Transcript} {candidate : Candidate}
    {members : Json.Members} {targets : List String} (fits : growth.Fits read roots past)
    (found : Found read roots candidate.systemId)
    (isRead : reading read candidate.systemId = .ok (.ok members))
    (refers : neighbours candidate.systemId members = .ok targets)
    (noError : errors transcript = 0) :
    (growth.grown candidate members targets).Fits read roots (past ++ transcript) where
  errors_eq := by rw [errors_append, fits.errors_eq, noError]; rfl
  pending other isPending := by
    rcases List.mem_append.mp isPending with old | new
    · exact fits.pending other old
    · obtain ⟨target, isUnknown, rfl⟩ := List.mem_map.mp new
      obtain ⟨reference, occurs, leads⟩ :=
        (mem_of_mapM_eq_ok refers).mp (List.mem_of_mem_filter isUnknown)
      exact .reference found isRead occurs leads
  documents entry isKnown := by
    rcases Table.mem_set isKnown with rfl | old
    · exact ⟨found, isRead⟩
    · exact fits.documents entry old

/-- Visiting an address that is found polls the listener, and remembers a failure if an error is
reported. -/
theorem ends_visit {growth : Growth} {past : Transcript} {candidate : Candidate}
    (fits : growth.Fits read roots past) (found : Found read roots candidate.systemId) :
    ∃ transcript result, IsPlain transcript ∧
      Reporting.Ends (growth.visit read candidate) transcript result ∧ 0 < polls transcript ∧
        (∀ next, result = .ok next → next.Fits read roots (past ++ transcript)) ∧
        (Accessible read roots → ∃ next, result = .ok next) := by
  obtain ⟨transcript, result, isPlain, ends, ofMembers, ofNone, returns⟩ :=
    ends_readDocument read candidate.systemId
  have isPlainToo : IsPlain ([.poll] ++ transcript) :=
    isPlain_append.mpr ⟨by simp [IsPlain, Act.IsPlain], isPlain⟩
  have asks : 0 < polls ([.poll] ++ transcript) := by
    simp [polls, Act.isPoll]
  have sameErrors : errors ([.poll] ++ transcript) = errors transcript :=
    (errors_append _ _).trans (Nat.zero_add _)
  have isOk (accessible : Accessible read roots) : ∃ members?, result = .ok members? :=
    returns (accessible.reads _ found)
  unfold Growth.visit
  cases result with
  | error fault =>
      refine ⟨_, .error fault, isPlainToo, ends_poll.bind (ends.bind_error _), asks, ?_, ?_⟩
      · rintro next ⟨⟩
      · intro accessible
        obtain ⟨members?, ⟨⟩⟩ := isOk accessible
  | ok members? =>
      cases members? with
      | none =>
          refine ⟨_, _, isPlainToo, ends_poll.bind (ends.bind_last (ends_pure _)), asks, ?_,
            fun _ => ⟨_, rfl⟩⟩
          rintro _ ⟨⟩
          refine ⟨?_, fits.pending, fits.documents⟩
          rw [errors_append, fits.errors_eq, sameErrors, ofNone rfl, List.length_append]
          rfl
      | some members =>
          obtain ⟨noError, isRead⟩ := ofMembers members rfl
          cases refers : neighbours candidate.systemId members with
          | error fault =>
              refine ⟨_, .error fault, isPlainToo, ends_poll.bind (ends.bind_last ?_), asks,
                ?_, ?_⟩
              · simp only [refers]
                exact (ends_ofExcept _).bind_error _
              · rintro next ⟨⟩
              · intro accessible
                obtain ⟨targets, isTargets⟩ :=
                  exists_mapM_eq_ok_iff.mpr (accessible.resolves _ _ found isRead)
                rw [neighbours, isTargets] at refers
                cases refers
          | ok targets =>
              refine ⟨_, .ok (growth.grown candidate members targets), isPlainToo,
                ends_poll.bind (ends.bind_last ?_), asks, ?_, fun _ => ⟨_, rfl⟩⟩
              · simp only [refers]
                exact (ends_ofExcept _).bind_last (ends_pure _)
              · rintro _ ⟨⟩
                exact fits.grown found isRead refers (sameErrors.trans noError)

/-- A step that looks at an address for the first time polls the listener.  Any other step leaves
one address less to be looked at. -/
theorem approaches_step (read : String → Except Fault (List UInt8)) (roots : List String) :
    Approaches (Accessible read roots) (Growth.Fits read roots) (·.pending.length)
      (Growth.step read) := by
  rintro ⟨documents, sources, failed, pending⟩ past fits
  unfold Growth.step
  cases pending with
  | nil =>
      refine ⟨[], .ok none, ⟨isPlain_nil, fun _ => ?_, ?_, ?_, fun _ => ⟨none, rfl⟩⟩, ends_pure _⟩
      · rwa [List.append_nil]
      · exact fun _ isSome => nomatch isSome
      · exact fun _ isSome => nomatch isSome
  | cons candidate pending =>
      obtain ⟨found, others⟩ := List.forall_mem_cons.mp fits.pending
      dsimp only
      split
      case isTrue settled =>
        refine ⟨[], .ok (some _), ⟨isPlain_nil, (nomatch ·), ?_, ?_, fun _ => ⟨_, rfl⟩⟩,
          ends_pure _⟩
        · rintro _ ⟨⟩
          rw [List.append_nil]
          exact ⟨fits.errors_eq, others, fits.documents⟩
        · rintro _ ⟨⟩ _
          exact Nat.lt_succ_self pending.length
      case isFalse unsettled =>
        have restFits : Growth.Fits read roots { documents, roots := sources, failed, pending }
            past :=
          ⟨fits.errors_eq, others, fits.documents⟩
        obtain ⟨transcript, result, isPlain, ends, asks, ofNext, returns⟩ :=
          ends_visit restFits found
        cases result with
        | error fault =>
            refine ⟨transcript, .error fault, ⟨isPlain, (nomatch ·), ?_, ?_, ?_⟩,
              ends.bind_error _⟩
            · exact fun _ isSome => nomatch isSome
            · exact fun _ isSome => nomatch isSome
            · exact fun accessible => (returns accessible).elim fun _ isOk => nomatch isOk
        | ok grown =>
            refine ⟨transcript, .ok (some grown), ⟨isPlain, (nomatch ·), ?_, ?_,
              fun _ => ⟨_, rfl⟩⟩, ends.bind_last (ends_pure _)⟩
            · rintro _ ⟨⟩
              exact ofNext grown rfl
            · exact fun _ _ silent => absurd silent (Nat.ne_of_gt asks)

/-- A forest grows for ever, or to one of documents that are found, and there is no failure in it
only if no error is reported. -/
theorem scripted_growth (read : String → Except Fault (List UInt8)) (roots : List String) :
    Scripted (Kept (Accessible read roots) (Growth.Fits read roots) [])
      (repeated (Growth.step read) (.ofRoots roots)) :=
  scripted_repeated (approaches_step read roots) (Growth.fits_ofRoots read roots)

theorem halts_growth (explorable : Explorable read roots) :
    Halts (repeated (Growth.step read) (.ofRoots roots)) := by
  obtain ⟨order, -, finishes⟩ := explorable.exists_finishes {}
  have fits := Growth.fits_ofRoots read roots
  rcases finishes with ⟨-, states, after, passes⟩ | ⟨states, final, passes, -⟩
  · exact (approaches_step read roots).halts passes rfl fits
  · exact (approaches_step read roots).halts passes rfl fits

/-- There is no forest if and only if an error is reported. -/
theorem scripted_load_iff (read : String → Except Fault (List UInt8))
    (directory sources : List String) :
    Scripted (fun transcript result => IsPlain transcript ∧ ∀ forest?, result = .ok forest? →
      (forest? = none ↔ 0 < errors transcript)) (load read directory sources) := by
  refine Scripted.bind (scripted_ofExcept ⟨isPlain_nil, fun roots _ => ?_,
    fun _ _ => ⟨isPlain_nil, fun _ isOk => nomatch isOk⟩⟩)
  refine Scripted.bind ((scripted_growth read roots).mono
    fun transcript result ⟨isPlain, fits, _⟩ => ⟨isPlain, ?value, ?fault⟩)
  case value =>
    intro growth isGrowth
    have counts : errors transcript = growth.failed.length := (fits growth isGrowth).errors_eq
    split
    case isTrue noFailure =>
      refine scripted_pure ⟨by rwa [List.append_nil], ?_⟩
      rintro _ ⟨⟩
      simp [counts, List.isEmpty_iff.mp noFailure]
    case isFalse someFailure =>
      refine scripted_pure ⟨by rwa [List.append_nil], ?_⟩
      rintro _ ⟨⟩
      simpa [counts, List.length_pos_iff] using someFailure
  case fault =>
    exact fun fault _ => ⟨isPlain, fun _ isOk => nomatch isOk⟩

/-- There is a forest only if no error is reported. -/
theorem scripted_load (read : String → Except Fault (List UInt8))
    (directory sources : List String) : Scripted Vouches (load read directory sources) :=
  (scripted_load_iff read directory sources).mono fun transcript result ⟨isPlain, decides⟩ =>
    ⟨isPlain, fun forest isForest => by simpa using (decides _ isForest).not⟩

/-- Whether the documents of a forest, if there is one, are found from sources and are as they are
read. -/
def StemsFrom (read : String → Except Fault (List UInt8)) (roots : List String)
    (forest? : Option Forest) : Prop :=
  ∀ forest ∈ forest?, ∀ entry ∈ forest.documents,
    Found read roots entry.1 ∧ reading read entry.1 = .ok (.ok entry.2)

/-- Loading what can be accessed meets no fault, and leads to documents that are found.  It goes on
for ever only if infinitely many addresses are found. -/
theorem yields_load_or_endless {directory sources : List String}
    (resolved : sources.mapM (Uri.ofSource directory) = .ok roots)
    (accessible : Accessible read roots) :
    Yields True (StemsFrom read roots) (load read directory sources) ∨
    Endless (load read directory sources) ∧ {systemId | Found read roots systemId}.Infinite := by
  unfold load
  rw [resolved]
  rcases scripted_growth read roots with ⟨transcript, result, ⟨isPlain, fits, returns⟩, grows⟩ |
    endless
  · obtain ⟨growth, rfl⟩ := returns accessible
    have documents := (fits growth rfl).documents
    let finish : Reporting (Option Forest) := do
      if growth.failed.isEmpty then
        return some { documents := growth.documents, roots := growth.roots }
      return none
    have finishes : ∃ forest?, Reporting.Ends finish [] (.ok forest?) ∧
        ∀ forest ∈ forest?, forest.documents = growth.documents := by
      unfold finish
      split
      · refine ⟨_, ends_pure _, ?_⟩
        rintro _ ⟨⟩
        rfl
      · exact ⟨none, ends_pure _, fun _ isForest => nomatch isForest⟩
    obtain ⟨forest?, last, same⟩ := finishes
    refine Or.inl ⟨transcript, _, isPlain, (grows.bind_last last).after_ofExcept, fun _ => ?_⟩
    exact ⟨forest?, rfl, fun forest isForest => same forest isForest ▸ documents⟩
  · refine Or.inr ⟨(ends_ofExcept _).endless_bind isPlain_nil (endless.bind _), fun finite => ?_⟩
    obtain ⟨_, _, ends⟩ := halts_growth (accessible.explorable finite)
    exact ends.not_endless endless

/-- Visiting an address whose document can be read polls the listener and reports nothing. -/
theorem ends_visit_of_members {growth : Growth} {candidate : Candidate} {members : Json.Members}
    {targets : List String} (isRead : reading read candidate.systemId = .ok (.ok members))
    (refers : neighbours candidate.systemId members = .ok targets) :
    Reporting.Ends (growth.visit read candidate) [.poll]
      (.ok (growth.grown candidate members targets)) := by
  have reads : Reporting.Ends (readDocument read candidate.systemId) [] (.ok (some members)) := by
    unfold readDocument
    rw [isRead]
    exact (ends_ofExcept _).bind_last (ends_pure _)
  refine ends_poll.bind (reads.bind_last ?_)
  simp only [refers]
  exact (ends_ofExcept _).bind_last (ends_pure _)

/-- A document without references is a forest of its own, and the listener is asked once. -/
theorem ends_load_alone {directory : List String} {source systemId : String}
    {members : Json.Members} (isAddress : Uri.ofSource directory source = .ok systemId)
    (isRead : reading read systemId = .ok (.ok members))
    (alone : externalReferences (.object members) = []) :
    Reporting.Ends (load read directory [source]) [.poll]
      (.ok (some { documents := [(systemId, members)], roots := [systemId] })) := by
  have areRoots : [source].mapM (Uri.ofSource directory) = .ok [systemId] := by
    rw [List.mapM_cons, isAddress]
    rfl
  have noTargets : neighbours systemId members = .ok [] := by
    rw [neighbours, alone]
    rfl
  let grown : Growth := { documents := [(systemId, members)], roots := [systemId], pending := [] }
  have first : Reporting.Ends (Growth.step read (.ofRoots [systemId])) [.poll]
      (.ok (some grown)) :=
    (ends_visit_of_members isRead noTargets).bind_last (ends_pure _)
  have last : Reporting.Ends (repeated (Growth.step read) grown) [] (.ok grown) := by
    rw [repeated_eq]
    exact (ends_pure none).bind_last (ends_pure grown)
  have grows : Reporting.Ends (repeated (Growth.step read) (.ofRoots [systemId])) [.poll]
      (.ok grown) := by
    rw [repeated_eq]
    exact first.bind_last last
  unfold load
  rw [areRoots]
  exact (ends_ofExcept _).bind (grows.bind_last (ends_pure _))

end Forest

end Typeloom
