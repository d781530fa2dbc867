import Typeloom.Proofs.Report.Repetition
import Typeloom.Proofs.Schema.Growth

/-!
# The documents of a forest

Loading reads the documents of the sources and all documents that are found from them through
references, each of them once and breadth first.  It leads to a forest of exactly these documents
if all of them can be read, and each that cannot be read is reported once.
-/

namespace Typeloom

namespace Forest

open Reporting Search

/-- The addresses that are found from those of sources: the sources, and what the references lead
to of each document that is found and can be read. -/
inductive Found (read : String → Except Fault (List UInt8)) (roots : List String) :
    String → Prop where
  | source {systemId : String} : systemId ∈ roots → Found read roots systemId
  | reference {origin reference target : String} {members : Json.Members} :
      Found read roots origin → reading read origin = .ok (.ok members) →
      reference ∈ externalReferences (.object members) →
      Uri.documentOf origin reference = .ok target → Found read roots target

/-- What is found from sources can be explored: finitely many addresses are found, each of them
leads to a document or to a failure that is reported, and the references lead to addresses. -/
structure Explorable (read : String → Except Fault (List UInt8)) (roots : List String) : Prop where
  finite : {systemId | Found read roots systemId}.Finite
  reads : ∀ systemId, Found read roots systemId → ∃ outcome, reading read systemId = .ok outcome
  resolves : ∀ systemId members, Found read roots systemId →
    reading read systemId = .ok (.ok members) →
    ∀ reference ∈ externalReferences (.object members),
      ∃ target, Uri.documentOf systemId reference = .ok target

variable {read : String → Except Fault (List UInt8)} {roots visited queue order : List String}
  {growth : Growth} {channel : Channel}

/-! ## From step to run -/

/-- How the growth of a forest goes on that has visited some addresses and has others before it:
either the listener cancels the run, or the latter are read in their order and nothing else. -/
def Finishes (read : String → Except Fault (List UInt8)) (roots visited order : List String)
    (growth : Growth) (channel : Channel) : Prop :=
  (channel.cancelAfter ≠ none ∧ ∃ states after,
    Passes (Growth.step read) growth channel states (.error .cancelled) after) ∨
  ∃ states final,
    Passes (Growth.step read) growth channel states (.ok final) (heard read channel order) ∧
      states.filterMap Growth.attempt? = order ∧ final.pending = [] ∧
      Growth.Tracks read roots (visited ++ order) final

theorem finishes_nil (tracks : Growth.Tracks read roots visited growth)
    (isPending : growth.pending = []) : Finishes read roots visited [] growth channel := by
  have ends : Passes (Growth.step read) growth channel [growth] (.ok growth)
      (heard read channel []) := by
    rw [heard_nil]
    exact .last (Growth.step_of_nil isPending channel)
  refine Or.inr ⟨[growth], growth, ends, ?_, isPending, ?_⟩
  · simp [Growth.attempt?, isPending]
  · rwa [List.append_nil]

/-- An address that is visited is passed over. -/
theorem Finishes.pass {candidate : Candidate} {pending : List Candidate}
    (isPending : growth.pending = candidate :: pending)
    (settled : growth.isSettled candidate.systemId = true)
    (finishes : Finishes read roots visited order
      (Growth.revisit { growth with pending } candidate) channel) :
    Finishes read roots visited order growth channel := by
  have taken := Growth.step_of_settled read isPending settled channel
  rcases finishes with ⟨cancels, states, after, passes⟩ | ⟨states, final, passes, attempts, ends⟩
  · exact Or.inl ⟨cancels, growth :: states, after, .next taken passes⟩
  · refine Or.inr ⟨growth :: states, final, .next taken passes, ?_, ends⟩
    have noAttempt : growth.attempt? = none := by simp [Growth.attempt?, isPending, settled]
    rw [List.filterMap_cons_none noAttempt, attempts]

/-- An address that is not visited is read, and then the others are. -/
theorem Finishes.visit {systemId : String} {next : Growth}
    (attempts : growth.attempt? = some systemId)
    (taken : onChannel (growth.step read) channel =
      (.ok (some next), heard read channel [systemId]))
    (finishes : Finishes read roots (visited ++ [systemId]) order next
      (heard read channel [systemId])) :
    Finishes read roots visited (systemId :: order) growth channel := by
  rcases finishes with ⟨cancels, states, after, passes⟩ |
    ⟨states, final, passes, rest, isPending, tracks⟩
  · exact Or.inl ⟨cancels, growth :: states, after, .next taken passes⟩
  · rw [← heard_cons] at passes
    refine Or.inr ⟨growth :: states, final, .next taken passes, ?_, isPending, ?_⟩
    · rw [List.filterMap_cons_some attempts, rest]
    · rwa [List.append_cons]

/-- It is enough to say how a growth goes on that has nothing before it or an address that is not
visited. -/
theorem finishes_of_unsettled (queue : List String)
    (unsettled : ∀ {growth : Growth}, Growth.Tracks read roots visited growth →
      (growth.pending.map Candidate.systemId).filter (· ∉ visited) = queue.filter (· ∉ visited) →
      (∀ candidate pending, growth.pending = candidate :: pending →
        candidate.systemId ∉ visited) →
      Finishes read roots visited order growth channel)
    (tracks : Growth.Tracks read roots visited growth)
    (same : (growth.pending.map Candidate.systemId).filter (· ∉ visited) =
      queue.filter (· ∉ visited)) :
    Finishes read roots visited order growth channel := by
  induction isPending : growth.pending generalizing growth with
  | nil => exact unsettled tracks same (by simp [isPending])
  | cons candidate pending ih =>
      by_cases isVisited : candidate.systemId ∈ visited
      · refine Finishes.pass isPending (tracks.isSettled_iff.mpr isVisited) ?_
        refine ih (tracks.revisit isPending isVisited) ?_ rfl
        rw [← same, isPending]
        simp [Growth.revisit, isVisited]
      · refine unsettled tracks same fun other others isOther => ?_
        rw [isPending] at isOther
        cases isOther
        exact isVisited

/-- Only what is not visited anyway is left out when the targets of a document are appended. -/
theorem filter_pending_grown {candidate : Candidate} {members : Json.Members}
    {found : List String}
    (tracks : Growth.Tracks read roots visited (growth.grown candidate members found)) :
    ((growth.grown candidate members found).pending.map Candidate.systemId).filter (· ∉ visited) =
      (growth.pending.map Candidate.systemId ++ found).filter (· ∉ visited) := by
  have unvisited : (found.filter fun target =>
      !Table.contains (growth.add candidate members).documents target).filter (· ∉ visited) =
        found.filter (· ∉ visited) := by
    rw [List.filter_filter]
    apply List.filter_congr
    intro target _
    by_cases isVisited : target ∈ visited
    · simp [isVisited]
    · have unknown : target ∉ Table.keys (growth.add candidate members).documents :=
        fun known => isVisited (tracks.mem_keys_iff.mp known).1
      simpa [isVisited, Bool.eq_false_iff, Table.contains_iff] using unknown
  simp only [Growth.grown, List.map_append, List.map_map, Function.comp_def, List.map_id',
    List.filter_append, unvisited]
  rfl

/-- Visiting an address and going on with its targets behind what is pending. -/
theorem finishes_of_pending {candidate : Candidate} {pending : List Candidate}
    (tracks : Growth.Tracks read roots visited growth)
    (isPending : growth.pending = candidate :: pending) (unvisited : candidate.systemId ∉ visited)
    (proceeds : Proceeds read candidate.systemId)
    (goesOn : ∀ {next : Growth}, Growth.Tracks read roots (visited ++ [candidate.systemId]) next →
      (next.pending.map Candidate.systemId).filter (· ∉ visited ++ [candidate.systemId]) =
        (pending.map Candidate.systemId ++ targets read candidate.systemId).filter
          (· ∉ visited ++ [candidate.systemId]) →
      Finishes read roots (visited ++ [candidate.systemId]) order next
        (heard read channel [candidate.systemId])) :
    Finishes read roots visited (candidate.systemId :: order) growth channel := by
  have unsettled : growth.isSettled candidate.systemId = false := by
    rw [Bool.eq_false_iff, ne_eq, tracks.isSettled_iff]
    exact unvisited
  have attempts : growth.attempt? = some candidate.systemId := by
    simp [Growth.attempt?, isPending, unsettled]
  have taken := Growth.step_of_unsettled read isPending unsettled channel
  rw [onChannel_bind] at taken
  cases cancels : channel.poll.1 with
  | true =>
      rw [Growth.visit_of_cancelled cancels] at taken
      refine Or.inl ⟨?_, [growth], channel.poll.2, .stopped taken⟩
      intro never
      simp [Channel.poll, never] at cancels
  | false =>
      rcases proceeds with ⟨diagnostic, fails⟩ | ⟨members, found, reads, refers⟩
      · rw [Growth.visit_of_failure cancels fails] at taken
        refine Finishes.visit attempts taken (goesOn (tracks.fail isPending fails) ?_)
        rw [targets_of_failure fails, List.append_nil]
      · rw [Growth.visit_of_members cancels reads refers] at taken
        have next := tracks.grown isPending unvisited reads refers
        refine Finishes.visit attempts taken (goesOn next ?_)
        rw [targets_of_members reads refers]
        exact filter_pending_grown next

/-- A growth visits what a search visits. -/
theorem finishes_of_visits (visits : Visits (targets read) visited queue order)
    (proceeds : ∀ systemId ∈ order, Proceeds read systemId)
    (tracks : Growth.Tracks read roots visited growth)
    (same : (growth.pending.map Candidate.systemId).filter (· ∉ visited) =
      queue.filter (· ∉ visited)) :
    Finishes read roots visited order growth channel := by
  -- The pending addresses and the queue of the search need not be the same: they agree in what is
  -- not visited, in its order, and a step that passes over an address keeps this.
  induction visits generalizing growth channel with
  | @done visited queue all =>
      refine finishes_of_unsettled queue ?_ tracks same
      intro growth tracks same unvisited
      have nothing : queue.filter (· ∉ visited) = [] := by simpa using all
      cases isPending : growth.pending with
      | nil => exact finishes_nil tracks isPending
      | cons candidate pending =>
          have isUnvisited := unvisited candidate pending isPending
          rw [nothing, isPending] at same
          simp [isUnvisited] at same
  | @visit visited queue order systemId next visits ih =>
      refine finishes_of_unsettled queue ?_ tracks same
      intro growth tracks same unvisited
      have first := next
      rw [← List.head?_filter, ← same] at first
      cases isPending : growth.pending with
      | nil => simp [isPending] at first
      | cons candidate pending =>
          have isUnvisited := unvisited candidate pending isPending
          obtain rfl : candidate.systemId = systemId := by
            simpa [isPending, isUnvisited] using first
          refine finishes_of_pending tracks isPending isUnvisited (proceeds _ (by simp)) ?_
          intro next tracks sameNext
          apply ih (fun other later => proceeds other (List.mem_cons_of_mem _ later)) tracks
          rw [isPending, List.map_cons] at same
          rw [sameNext, List.filter_append, List.filter_append]
          simp only [filter_append_seen, ← same]
          simp [isUnvisited]

/-! ## What is found -/

/-- What the document of an address that is found refers to is found. -/
theorem Found.target {origin target : String} (found : Found read roots origin)
    (isTarget : target ∈ targets read origin) : Found read roots target := by
  cases isReading : reading read origin with
  | error fault => simp [targets, members?, isReading] at isTarget
  | ok outcome =>
      cases outcome with
      | error diagnostic => simp [targets_of_failure isReading] at isTarget
      | ok members =>
          cases refers : neighbours origin members with
          | error fault =>
              simp [targets, members?, isReading, refers, Except.toOption] at isTarget
          | ok targets =>
              rw [targets_of_members isReading refers] at isTarget
              obtain ⟨reference, occurs, leads⟩ := (mem_of_mapM_eq_ok refers).mp isTarget
              exact .reference found isReading occurs leads

theorem mem_targets {origin reference target : String} {members : Json.Members}
    (proceeds : Proceeds read origin) (reads : reading read origin = .ok (.ok members))
    (occurs : reference ∈ externalReferences (.object members))
    (leads : Uri.documentOf origin reference = .ok target) : target ∈ targets read origin := by
  rcases proceeds with ⟨diagnostic, fails⟩ | ⟨_, neighbours, readsToo, refers⟩
  · simp [fails] at reads
  · obtain rfl : _ = members := by simpa [readsToo] using reads
    rw [targets_of_members reads refers]
    exact (mem_of_mapM_eq_ok refers).mpr ⟨reference, occurs, leads⟩

/-- A search from the sources visits what is found if it meets no fault. -/
theorem mem_iff_found (visits : Visits (targets read) [] roots order)
    (proceeds : ∀ systemId, Found read roots systemId → Proceeds read systemId)
    (systemId : String) : systemId ∈ order ↔ Found read roots systemId := by
  constructor
  · exact visits.of_mem (fun _ => .source) (fun _ found _ => found.target) systemId
  · intro found
    induction found with
    | source isRoot => simpa using visits.of_mem_queue isRoot
    | @reference origin reference target members found reads occurs leads ih =>
        have isTarget := mem_targets (proceeds origin found) reads occurs leads
        simpa using visits.of_mem_targets ih isTarget

theorem Explorable.proceeds (explorable : Explorable read roots) (systemId : String)
    (found : Found read roots systemId) : Proceeds read systemId := by
  obtain ⟨outcome, isReading⟩ := explorable.reads systemId found
  cases outcome with
  | error diagnostic => exact Or.inl ⟨diagnostic, isReading⟩
  | ok members =>
      have resolves := explorable.resolves systemId members found isReading
      obtain ⟨targets, refers⟩ := exists_mapM_eq_ok_iff.mpr resolves
      exact Or.inr ⟨members, targets, isReading, refers⟩

/-- What is found can be explored if it remains within finitely many addresses whose documents
either fail or can be read and have references to documents only. -/
theorem explorable_of_proceeds (bound : List String)
    (ofRoots : ∀ systemId ∈ roots, systemId ∈ bound)
    (proceeds : ∀ systemId ∈ bound, Proceeds read systemId)
    (ofTargets : ∀ systemId ∈ bound, ∀ target ∈ targets read systemId, target ∈ bound) :
    Explorable read roots := by
  have inBound (systemId : String) (found : Found read roots systemId) : systemId ∈ bound := by
    induction found with
    | source isRoot => exact ofRoots _ isRoot
    | @reference origin reference target members _ reads occurs leads ih =>
        exact ofTargets origin ih target (mem_targets (proceeds origin ih) reads occurs leads)
  refine ⟨bound.finite_toSet.subset inBound, ?reads, ?resolves⟩
  case reads =>
    intro systemId found
    rcases proceeds systemId (inBound systemId found) with ⟨diagnostic, fails⟩ |
      ⟨members, _, reads, _⟩
    · exact ⟨_, fails⟩
    · exact ⟨_, reads⟩
  case resolves =>
    intro systemId members found reads
    rcases proceeds systemId (inBound systemId found) with ⟨diagnostic, fails⟩ |
      ⟨_, found, readsToo, refers⟩
    · simp [fails] at reads
    · obtain rfl : _ = members := by simpa [readsToo] using reads
      exact exists_mapM_eq_ok_iff.mp ⟨found, refers⟩

/-- The growth from the sources visits what a search from them visits, and such a search ends. -/
theorem Explorable.exists_finishes (explorable : Explorable read roots) (channel : Channel) :
    ∃ order, Visits (targets read) [] roots order ∧
      Finishes read roots [] order (.ofRoots roots) channel := by
  obtain ⟨order, visits⟩ : ∃ order, Visits (targets read) [] roots order :=
    exists_visits explorable.finite (fun _ found _ => found.target) [] roots fun _ => .source
  have proceeds (systemId : String) (occurs : systemId ∈ order) : Proceeds read systemId := by
    apply explorable.proceeds
    rwa [← mem_iff_found visits explorable.proceeds]
  have start : ((Growth.ofRoots roots).pending.map Candidate.systemId).filter (· ∉ []) =
      roots.filter (· ∉ []) := by
    simp [Growth.ofRoots, Function.comp_def]
  exact ⟨order, visits, finishes_of_visits visits proceeds (Growth.tracks_ofRoots roots) start⟩

/-! ## The forest in the end -/

/-- Loading reads the documents of addresses in an order and leads to a result. -/
structure Explores (read : String → Except Fault (List UInt8)) (roots order : List String)
    (channel after : Channel) (result : Option Forest) : Prop where
  /-- The steps read the addresses of the order, one after the other, and nothing else. -/
  attempts : ∃ states final,
    Passes (Growth.step read) (.ofRoots roots) channel states (.ok final) after ∧
      states.filterMap Growth.attempt? = order
  /-- No address is read twice. -/
  nodup : order.Nodup
  /-- An address is read if and only if it is found. -/
  mem_iff : ∀ systemId, systemId ∈ order ↔ Found read roots systemId
  /-- The sources are read first, then what they refer to, and so on. -/
  breadthFirst : BreadthFirst (targets read) [] roots.eraseDups order
  /-- The listener is told of each document that fails, in the order, and of nothing else. -/
  after_eq : after = heard read channel order
  /-- What the listener is told is an error in that document. -/
  reported : ∀ systemId diagnostic, failure? read systemId = some diagnostic →
    diagnostic.severity.isError = true ∧ diagnostic.systemId = some systemId
  /-- There is no forest if and only if a document that is found fails. -/
  result_eq_none_iff : result = none ↔
    ∃ systemId, Found read roots systemId ∧ (failure? read systemId).isSome = true
  /-- A forest has the documents in the order, and as they were read. -/
  documents : ∀ forest, result = some forest → Table.keys forest.documents = order ∧
    ∀ entry ∈ forest.documents, reading read entry.1 = .ok (.ok entry.2)
  /-- The roots of a forest are the sources, each of them once. -/
  roots : ∀ forest, result = some forest → forest.roots = roots.eraseDups

theorem onChannel_load {directory sources : List String}
    (resolved : sources.mapM (Uri.ofSource directory) = .ok roots) :
    onChannel (load read directory sources) channel =
      match onChannel (repeated (Growth.step read) (.ofRoots roots)) channel with
      | (.ok growth, after) =>
          (.ok (if growth.failed.isEmpty then
              some { documents := growth.documents, roots := growth.roots } else none), after)
      | (.error stop, after) => (.error stop, after) := by
  rw [load, resolved, onChannel_bind, onChannel_ofExcept_ok]
  dsimp only
  rw [onChannel_bind]
  rcases onChannel (repeated (Growth.step read) (.ofRoots roots)) channel with
    ⟨stop | growth, after⟩
  · rfl
  · dsimp only
    split <;> rfl

theorem Proceeds.isReadable {systemId : String} (proceeds : Proceeds read systemId)
    (noFailure : failure? read systemId = none) : isReadable read systemId = true := by
  rcases proceeds with ⟨diagnostic, fails⟩ | ⟨members, _, reads, _⟩
  · simp [failure?, fails] at noFailure
  · simp [Forest.isReadable, members?, reads]

/-- The forest of a growth that has visited addresses without a failure. -/
theorem documents_of_tracks {final : Growth} (tracks : Growth.Tracks read roots order final)
    (noFailure : ∀ systemId ∈ order, isReadable read systemId = true) :
    Table.keys final.documents = order ∧
      ∀ entry ∈ final.documents, reading read entry.1 = .ok (.ok entry.2) := by
  constructor
  · rw [tracks.keys_eq, List.filter_eq_self.mpr noFailure]
  · intro entry occurs
    rw [tracks.documents_eq] at occurs
    obtain ⟨systemId, _, found⟩ := List.mem_filterMap.mp occurs
    obtain ⟨members, reads, rfl⟩ := Option.map_eq_some_iff.mp found
    exact members?_eq_some_iff.mp reads

theorem roots_of_tracks {final : Growth} (tracks : Growth.Tracks read roots order final)
    (isPending : final.pending = [])
    (noFailure : ∀ systemId ∈ roots, isReadable read systemId = true) :
    final.roots = roots.eraseDups := by
  have noted := tracks.roots_eq
  rw [isPending, List.filter_eq_self.mpr noFailure] at noted
  simpa [Growth.awaited, fresh_nil] using noted

/-- What a growth comes to that has visited what is found. -/
theorem explores_of_tracks {states : List Growth} {final : Growth}
    (visits : Visits (targets read) [] roots order)
    (proceeds : ∀ systemId, Found read roots systemId → Proceeds read systemId)
    (passes : Passes (Growth.step read) (.ofRoots roots) channel states (.ok final)
      (heard read channel order))
    (attempts : states.filterMap Growth.attempt? = order) (isPending : final.pending = [])
    (tracks : Growth.Tracks read roots order final) :
    Explores read roots order channel (heard read channel order)
      (if final.failed.isEmpty then
        some { documents := final.documents, roots := final.roots } else none) := by
  have found := mem_iff_found visits proceeds
  have readable (noFailure : final.failed.isEmpty = true) (systemId : String)
      (occurs : systemId ∈ order) : isReadable read systemId = true := by
    refine (proceeds systemId ((found systemId).mp occurs)).isReadable ?_
    rw [List.isEmpty_iff, tracks.failed_eq, List.filter_eq_nil_iff] at noFailure
    simpa using noFailure systemId occurs
  refine
    { attempts := ⟨states, final, passes, attempts⟩
      nodup := visits.nodup
      mem_iff := found
      breadthFirst := nil_fresh roots ▸ visits.breadthFirst
      after_eq := rfl
      reported := ?reported
      result_eq_none_iff := ?fails
      documents := ?documents
      roots := ?roots }
  case reported =>
    intro systemId diagnostic fails
    exact isError_of_reading (failure?_eq_some_iff.mp fails)
  case fails =>
    have someFails : final.failed.isEmpty = false ↔
        ∃ systemId ∈ order, (failure? read systemId).isSome = true := by
      rw [Bool.eq_false_iff, ne_eq, List.isEmpty_iff, tracks.failed_eq, List.filter_eq_nil_iff]
      push Not
      rfl
    simp only [found] at someFails
    rw [← someFails]
    cases final.failed.isEmpty <;> simp
  case documents =>
    intro forest isForest
    split at isForest
    · rename_i noFailure
      cases isForest
      exact documents_of_tracks tracks (readable noFailure)
    · contradiction
  case roots =>
    intro forest isForest
    split at isForest
    · rename_i noFailure
      cases isForest
      refine roots_of_tracks tracks isPending fun systemId isRoot => ?_
      exact readable noFailure systemId ((found systemId).mpr (.source isRoot))
    · contradiction

section Load

variable {directory sources : List String}

/-- Loading is cancelled by nothing but the listener. -/
theorem load_ne_cancelled (resolved : sources.mapM (Uri.ofSource directory) = .ok roots)
    (explorable : Explorable read roots) (never : channel.cancelAfter = none) :
    (onChannel (load read directory sources) channel).1 ≠ .error .cancelled := by
  obtain ⟨order, _, finishes⟩ := explorable.exists_finishes channel
  rcases finishes with ⟨cancels, _⟩ | ⟨states, final, passes, _⟩
  · exact absurd never cancels
  · rw [onChannel_load resolved, passes.onChannel_eq]
    simp

/-- Loading depends on nothing but the documents that its steps read. -/
theorem onChannel_load_congr {other : String → Except Fault (List UInt8)} {states : List Growth}
    {final : Growth} {after : Channel}
    (resolved : sources.mapM (Uri.ofSource directory) = .ok roots)
    (passes : Passes (Growth.step read) (.ofRoots roots) channel states (.ok final) after)
    (same : ∀ systemId ∈ states.filterMap Growth.attempt?, read systemId = other systemId) :
    onChannel (load other directory sources) channel =
      onChannel (load read directory sources) channel := by
  have passesToo : Passes (Growth.step other) (.ofRoots roots) channel states (.ok final) after := by
    refine passes.congr fun passed occurs => Growth.step_congr fun systemId attempts => ?_
    exact same systemId (List.mem_filterMap.mpr ⟨passed, occurs, attempts⟩)
  rw [onChannel_load resolved, onChannel_load resolved, passes.onChannel_eq,
    passesToo.onChannel_eq]

/-- Loading the documents of sources ends if what is found from them can be explored and the
listener does not cancel the run.  It reads what is found and nothing else, each document once and
breadth first, and leads to a forest of what it reads unless a document fails. -/
theorem explores_of_load (resolved : sources.mapM (Uri.ofSource directory) = .ok roots)
    (explorable : Explorable read roots)
    (uncancelled : (onChannel (load read directory sources) channel).1 ≠ .error .cancelled) :
    ∃ order result after, onChannel (load read directory sources) channel = (.ok result, after) ∧
      Explores read roots order channel after result ∧
      ∀ other, (∀ systemId ∈ order, read systemId = other systemId) →
        onChannel (load other directory sources) channel = (.ok result, after) := by
  obtain ⟨order, visits, finishes⟩ := explorable.exists_finishes channel
  have loaded : onChannel (load read directory sources) channel = _ := onChannel_load resolved
  rcases finishes with ⟨_, states, after, passes⟩ |
    ⟨states, final, passes, attempts, isPending, tracks⟩
  · rw [passes.onChannel_eq] at loaded
    exact absurd (congrArg Prod.fst loaded) uncancelled
  · rw [passes.onChannel_eq] at loaded
    refine ⟨order, _, _, loaded,
      explores_of_tracks visits explorable.proceeds passes attempts isPending tracks, ?_⟩
    intro other same
    rw [onChannel_load_congr resolved passes (attempts ▸ same)]
    exact loaded

end Load

/-- Two documents that refer to each other, of which one refers to a third one that is missing. -/
def missingThird (systemId : String) : Except Fault (List UInt8) :=
  if systemId = "file:///a" then
    .ok "\x7b\"$ref\": \"b\", \"items\": \x7b\"$ref\": \"c\"\x7d\x7d".toUTF8.toList
  else if systemId = "file:///b" then .ok "\x7b\"$ref\": \"a#top\"\x7d".toUTF8.toList
  else .error (.system .unreachable)

theorem explorable_missingThird : Explorable missingThird ["file:///a"] := by
  apply explorable_of_proceeds ["file:///a", "file:///b", "file:///c"]
  · decide
  · decide +kernel
  · decide +kernel

theorem explores_missingThird : ∃ order result after,
    onChannel (load missingThird [] ["file:///a"]) {} = (.ok result, after) ∧
      Explores missingThird ["file:///a"] order {} after result ∧
      ∀ other, (∀ systemId ∈ order, missingThird systemId = other systemId) →
        onChannel (load other [] ["file:///a"]) {} = (.ok result, after) := by
  have resolved : ["file:///a"].mapM (Uri.ofSource []) = .ok ["file:///a"] := by rfl
  exact explores_of_load resolved explorable_missingThird
    (load_ne_cancelled resolved explorable_missingThird rfl)

end Forest

end Typeloom
