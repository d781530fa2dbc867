import Typeloom.Proofs.Schema.BreadthFirst
import Typeloom.Schema.Forest

/-!
# The growth of a forest

The growth of a forest is a search.  What it has come to is said by the addresses that it has
visited: those whose documents could be read are in the forest, in the order of the visits, and the
others have failed and were reported.
-/

namespace Typeloom

namespace Forest

open Reporting Search

section Reading

variable (read : String → Except Fault (List UInt8))

/-- The members of the document of an address, if it can be read. -/
def members? (systemId : String) : Option Json.Members :=
  match reading read systemId with
  | .ok (.ok members) => some members
  | _ => none

/-- Whether the document of an address can be read. -/
def isReadable (systemId : String) : Bool :=
  (members? read systemId).isSome

/-- What is reported about the document of an address, if it cannot be read. -/
def failure? (systemId : String) : Option Diagnostic :=
  match reading read systemId with
  | .ok (.error diagnostic) => some diagnostic
  | _ => none

/-- The addresses that the document of an address refers to, in the order of the references. -/
def targets (systemId : String) : List String :=
  match members? read systemId with
  | some members => (neighbours systemId members).toOption.getD []
  | none => []

/-- Whether the document of an address either fails or can be read and has references to documents
only. -/
def Proceeds (systemId : String) : Prop :=
  (∃ diagnostic, reading read systemId = .ok (.error diagnostic)) ∨
    ∃ members found, reading read systemId = .ok (.ok members) ∧
      neighbours systemId members = .ok found

instance : DecidablePred (Proceeds read) := fun systemId =>
  match isReading : reading read systemId with
  | .ok (.error diagnostic) => .isTrue (Or.inl ⟨diagnostic, isReading⟩)
  | .ok (.ok members) =>
      match refers : neighbours systemId members with
      | .ok found => .isTrue (Or.inr ⟨members, found, isReading, refers⟩)
      | .error _ => .isFalse (by simp [Proceeds, isReading, refers])
  | .error _ => .isFalse (by simp [Proceeds, isReading])

/-- A channel after the documents of addresses have been read: the listener was polled for each of
them and told of each that fails. -/
def heard (channel : Channel) (systemIds : List String) : Channel :=
  let failures := systemIds.filterMap (failure? read)
  { channel with
    polls := channel.polls + systemIds.length
    errors := channel.errors + failures.length
    events := channel.events ++
      failures.map fun diagnostic => .diagnosed diagnostic.severity diagnostic }

end Reading

variable {read : String → Except Fault (List UInt8)}

theorem members?_eq_some_iff {systemId : String} {members : Json.Members} :
    members? read systemId = some members ↔ reading read systemId = .ok (.ok members) := by
  unfold members?
  split <;> simp_all

theorem failure?_eq_some_iff {systemId : String} {diagnostic : Diagnostic} :
    failure? read systemId = some diagnostic ↔
      reading read systemId = .ok (.error diagnostic) := by
  unfold failure?
  split <;> simp_all

theorem targets_of_failure {systemId : String} {diagnostic : Diagnostic}
    (fails : reading read systemId = .ok (.error diagnostic)) : targets read systemId = [] := by
  simp [targets, members?, fails]

theorem targets_of_members {systemId : String} {members : Json.Members} {found : List String}
    (reads : reading read systemId = .ok (.ok members))
    (refers : neighbours systemId members = .ok found) : targets read systemId = found := by
  simp [targets, members?, reads, refers, Except.toOption]

/-- A document that fails is reported as an error, and with its address. -/
theorem isError_of_reading {systemId : String} {diagnostic : Diagnostic}
    (fails : reading read systemId = .ok (.error diagnostic)) :
    diagnostic.severity.isError = true ∧ diagnostic.systemId = some systemId := by
  have ofCause (cause : Cause) (severity : Severity) :
      (Diagnostic.ofCause cause severity (some systemId)).severity = severity ∧
        (Diagnostic.ofCause cause severity (some systemId)).systemId = some systemId := by
    cases cause <;> exact ⟨rfl, rfl⟩
  unfold reading at fails
  dsimp only at fails
  split at fails
  all_goals cases fails
  · exact ⟨rfl, rfl⟩
  · simp [ofCause, Severity.isError]
  · simp [ofCause, Severity.isError]
  · simp [ofCause, Severity.isError]

theorem heard_nil (channel : Channel) : heard read channel [] = channel := by
  simp [heard]

theorem heard_cons (channel : Channel) (systemId : String) (later : List String) :
    heard read channel (systemId :: later) = heard read (heard read channel [systemId]) later := by
  cases outcome : failure? read systemId with
  | none => simp [heard, outcome, Nat.add_assoc, Nat.add_comm 1]
  | some diagnostic => simp [heard, outcome, Nat.add_assoc, Nat.add_comm 1]

/-! ## One step -/

namespace Growth

/-- The address that is read in the next step, if that step reads one. -/
def attempt? (growth : Growth) : Option String :=
  match growth.pending with
  | [] => none
  | candidate :: _ =>
      if growth.isSettled candidate.systemId then none else some candidate.systemId

variable {growth : Growth} {candidate : Candidate} {pending : List Candidate}

/-- A step depends on nothing but the document of the address that it reads. -/
theorem step_congr {other : String → Except Fault (List UInt8)}
    (same : ∀ systemId, growth.attempt? = some systemId → read systemId = other systemId) :
    growth.step read = growth.step other := by
  unfold step
  cases isPending : growth.pending with
  | nil => rfl
  | cons candidate pending =>
      dsimp only
      split
      · rfl
      · rename_i unsettled
        have attempts : growth.attempt? = some candidate.systemId := by
          rw [attempt?, isPending]
          exact if_neg unsettled
        have sameReading :
            reading read candidate.systemId = reading other candidate.systemId := by
          rw [reading, reading, same candidate.systemId attempts]
        simp only [visit, readDocument, sameReading]

theorem step_of_nil (isPending : growth.pending = []) (channel : Channel) :
    onChannel (growth.step read) channel = (.ok none, channel) := by
  unfold step
  rw [isPending]
  rfl

variable (read) in
theorem step_of_settled (isPending : growth.pending = candidate :: pending)
    (settled : growth.isSettled candidate.systemId = true) (channel : Channel) :
    onChannel (growth.step read) channel =
      (.ok (some (revisit { growth with pending } candidate)), channel) := by
  have stillSettled : isSettled { growth with pending } candidate.systemId = true := settled
  unfold step
  rw [isPending]
  dsimp only
  rw [if_pos stillSettled]
  rfl

variable (read) in
/-- An address that is not settled is visited. -/
theorem step_of_unsettled (isPending : growth.pending = candidate :: pending)
    (unsettled : growth.isSettled candidate.systemId = false) (channel : Channel) :
    onChannel (growth.step read) channel =
      onChannel (visit read { growth with pending } candidate >>= fun grown => pure (some grown))
        channel := by
  have stillUnsettled : ¬isSettled { growth with pending } candidate.systemId = true := by
    simpa [isSettled] using unsettled
  unfold step
  rw [isPending]
  dsimp only
  rw [if_neg stillUnsettled]

theorem visit_of_cancelled {channel : Channel} (cancels : channel.poll.1 = true) :
    onChannel (growth.visit read candidate) channel = (.error .cancelled, channel.poll.2) := by
  rw [visit, onChannel_bind, onChannel_poll, if_pos cancels]

/-- Visiting an address whose document fails. -/
theorem visit_of_failure {channel : Channel} (goesOn : channel.poll.1 = false)
    {diagnostic : Diagnostic}
    (fails : reading read candidate.systemId = .ok (.error diagnostic)) :
    onChannel (growth.visit read candidate) channel =
      (.ok { growth with failed := growth.failed ++ [candidate.systemId] },
        heard read channel [candidate.systemId]) := by
  have told : heard read channel [candidate.systemId] =
      channel.poll.2.notify diagnostic.severity diagnostic := by
    rw [Channel.notify_of_isError (isError_of_reading fails).1]
    simp [heard, failure?, fails, Channel.poll]
  rw [visit, onChannel_bind, onChannel_poll, goesOn, told]
  simp only [Bool.false_eq_true, if_false, readDocument, fails, onChannel_bind,
    onChannel_ofExcept_ok, onChannel_notify, onChannel_pure]

/-- A forest with the document of an address, and with what the document refers to still to be
looked at as far as it is not in the forest. -/
def grown (growth : Growth) (candidate : Candidate) (members : Json.Members)
    (found : List String) : Growth :=
  let unknown := found.filter fun target =>
    !Table.contains (growth.add candidate members).documents target
  { growth.add candidate members with
    pending := (growth.add candidate members).pending ++ unknown.map (Candidate.mk · false) }

/-- Visiting an address whose document can be read. -/
theorem visit_of_members {channel : Channel} (goesOn : channel.poll.1 = false)
    {members : Json.Members} {found : List String}
    (reads : reading read candidate.systemId = .ok (.ok members))
    (refers : neighbours candidate.systemId members = .ok found) :
    onChannel (growth.visit read candidate) channel =
      (.ok (growth.grown candidate members found), heard read channel [candidate.systemId]) := by
  have told : heard read channel [candidate.systemId] = channel.poll.2 := by
    simp [heard, failure?, reads, Channel.poll]
  rw [visit, onChannel_bind, onChannel_poll, goesOn, told]
  simp only [Bool.false_eq_true, if_false, readDocument, reads, refers, onChannel_bind,
    onChannel_ofExcept_ok, onChannel_pure, grown]

/-- A step that reads a document polls the listener and tells it nothing. -/
theorem step_of_members {channel : Channel} (isPending : growth.pending = candidate :: pending)
    (unsettled : growth.isSettled candidate.systemId = false) (goesOn : channel.poll.1 = false)
    {members : Json.Members} {found : List String}
    (reads : reading read candidate.systemId = .ok (.ok members))
    (refers : neighbours candidate.systemId members = .ok found) :
    onChannel (growth.step read) channel =
      (.ok (some (grown { growth with pending } candidate members found)), channel.poll.2) := by
  have silent : heard read channel [candidate.systemId] = channel.poll.2 := by
    simp [heard, failure?, reads, Channel.poll]
  rw [step_of_unsettled read isPending unsettled, onChannel_bind,
    visit_of_members goesOn reads refers, silent]
  rfl

variable (read growth) in
/-- What becomes of a growth in one step: an address that is settled is passed over, and the document
of any other one is not there or is added. -/
inductive Advances : Growth → Prop where
  | settled {candidate : Candidate} {pending : List Candidate} :
      growth.pending = candidate :: pending → growth.isSettled candidate.systemId = true →
      Advances (revisit { growth with pending } candidate)
  | failed {candidate : Candidate} {pending : List Candidate} :
      growth.pending = candidate :: pending →
      Advances { growth with pending, failed := growth.failed ++ [candidate.systemId] }
  | grown {candidate : Candidate} {pending : List Candidate} {members : Json.Members}
      {found : List String} :
      growth.pending = candidate :: pending →
      reading read candidate.systemId = .ok (.ok members) →
      neighbours candidate.systemId members = .ok found →
      Advances (grown { growth with pending } candidate members found)

theorem reading_of_readDocument {systemId : String} {members : Json.Members}
    {channel after : Channel}
    (returns : onChannel (readDocument read systemId) channel = (.ok (some members), after)) :
    reading read systemId = .ok (.ok members) := by
  obtain ⟨outcome, between, taken, returns⟩ := exists_of_onChannel_bind returns
  obtain ⟨reads, rfl⟩ := of_onChannel_ofExcept taken
  cases outcome with
  | ok found => cases returns; exact reads
  | error diagnostic =>
      obtain ⟨_, _, _, returns⟩ := exists_of_onChannel_bind returns
      cases returns

theorem advances_of_step {next : Growth} {channel after : Channel}
    (returns : onChannel (growth.step read) channel = (.ok (some next), after)) :
    Advances read growth next := by
  cases isPending : growth.pending with
  | nil => rw [step_of_nil isPending] at returns; cases returns
  | cons candidate pending =>
      cases settled : growth.isSettled candidate.systemId with
      | true =>
          rw [step_of_settled read isPending settled] at returns
          cases returns
          exact .settled isPending settled
      | false =>
          rw [step_of_unsettled read isPending settled] at returns
          obtain ⟨visited, _, visits, last⟩ := exists_of_onChannel_bind returns
          cases last
          obtain ⟨_, _, _, rest⟩ := exists_of_onChannel_bind visits
          obtain ⟨members?, _, isRead, rest⟩ := exists_of_onChannel_bind rest
          cases members? with
          | none => cases rest; exact .failed isPending
          | some members =>
              obtain ⟨found, _, refers, last⟩ := exists_of_onChannel_bind rest
              cases last
              exact .grown isPending (reading_of_readDocument isRead)
                (of_onChannel_ofExcept refers).1

/-- There is no further step only if no address is left to be looked at. -/
theorem pending_eq_nil_of_step {channel after : Channel}
    (returns : onChannel (growth.step read) channel = (.ok none, after)) :
    growth.pending = [] := by
  cases isPending : growth.pending with
  | nil => rfl
  | cons candidate pending =>
      cases settled : growth.isSettled candidate.systemId with
      | true => rw [step_of_settled read isPending settled] at returns; cases returns
      | false =>
          rw [step_of_unsettled read isPending settled] at returns
          obtain ⟨_, _, _, last⟩ := exists_of_onChannel_bind returns
          cases last

/-! ## What has been visited -/

/-- The addresses of sources among candidates, as far as their documents can be read. -/
def awaited (read : String → Except Fault (List UInt8)) (candidates : List Candidate) :
    List String :=
  ((candidates.filter Candidate.isRoot).map Candidate.systemId).filter (isReadable read)

/-- A growth has visited addresses on the way from sources: it holds the documents that can be
read, in the order of the visits, and the addresses whose documents fail.  The roots noted so far
are the first of those sources that can be read. -/
structure Tracks (read : String → Except Fault (List UInt8)) (roots visited : List String)
    (growth : Growth) : Prop where
  proceeds : ∀ systemId ∈ visited, Proceeds read systemId
  documents_eq : growth.documents =
    visited.filterMap fun systemId => (members? read systemId).map (systemId, ·)
  failed_eq : growth.failed = visited.filter fun systemId => (failure? read systemId).isSome
  roots_subset : ∀ systemId ∈ growth.roots, systemId ∈ visited
  roots_eq : growth.roots ++ fresh growth.roots (awaited read growth.pending) =
    (roots.filter (isReadable read)).eraseDups

theorem awaited_cons (candidate : Candidate) (pending : List Candidate) :
    awaited read (candidate :: pending) =
      if candidate.isRoot && isReadable read candidate.systemId then
        candidate.systemId :: awaited read pending
      else awaited read pending := by
  cases isRoot : candidate.isRoot with
  | false => simp [awaited, isRoot]
  | true =>
      cases readable : isReadable read candidate.systemId with
      | false => simp [awaited, isRoot, readable]
      | true => simp [awaited, isRoot, readable]

/-- A candidate that is a source with a document that can be read becomes a root, unless it is one
already, and then the roots and those still to come remain the same. -/
theorem roots_append_fresh (roots : List String) (candidate : Candidate)
    (pending : List Candidate) {after : List String}
    (noted : after = if candidate.isRoot && isReadable read candidate.systemId &&
      !roots.contains candidate.systemId then roots ++ [candidate.systemId] else roots) :
    after ++ fresh after (awaited read pending) =
      roots ++ fresh roots (awaited read (candidate :: pending)) := by
  rw [noted, awaited_cons]
  by_cases awaits : (candidate.isRoot && isReadable read candidate.systemId) = true
  · by_cases known : candidate.systemId ∈ roots
    · simp [awaits, known, fresh_cons_of_mem known]
    · simp [awaits, known, fresh_cons_of_not_mem known]
  · simp [awaits]

theorem tracks_ofRoots (roots : List String) : Tracks read roots [] (ofRoots roots) where
  proceeds := by simp
  documents_eq := rfl
  failed_eq := rfl
  roots_subset := by simp [ofRoots]
  roots_eq := by
    have all : awaited read (roots.map (Candidate.mk · true)) = roots.filter (isReadable read) := by
      have areRoots : (roots.map (Candidate.mk · true)).filter Candidate.isRoot =
          roots.map (Candidate.mk · true) := List.filter_eq_self.mpr (by simp)
      rw [awaited, areRoots, List.map_map]
      simp [Function.comp_def]
    change [] ++ fresh [] (awaited read (roots.map (Candidate.mk · true))) = _
    rw [all, nil_fresh, List.nil_append]

section Tracks

variable {roots visited : List String}

theorem Tracks.keys_eq (tracks : Tracks read roots visited growth) :
    Table.keys growth.documents = visited.filter (isReadable read) := by
  rw [tracks.documents_eq, Table.keys]
  clear tracks
  induction visited with
  | nil => rfl
  | cons systemId visited ih =>
      cases reads : members? read systemId with
      | none => simpa [isReadable, reads] using ih
      | some members => simpa [isReadable, reads] using ih

theorem Tracks.mem_keys_iff (tracks : Tracks read roots visited growth) {systemId : String} :
    systemId ∈ Table.keys growth.documents ↔
      systemId ∈ visited ∧ isReadable read systemId = true := by
  rw [tracks.keys_eq, List.mem_filter]

theorem Tracks.isSettled_iff (tracks : Tracks read roots visited growth) {systemId : String} :
    growth.isSettled systemId = true ↔ systemId ∈ visited := by
  rw [isSettled, Bool.or_eq_true, List.contains_iff_mem, Table.contains_iff, tracks.mem_keys_iff,
    tracks.failed_eq, List.mem_filter]
  constructor
  · rintro (⟨isVisited, _⟩ | ⟨isVisited, _⟩) <;> exact isVisited
  · intro isVisited
    rcases tracks.proceeds systemId isVisited with ⟨_, fails⟩ | ⟨_, _, reads, _⟩
    · exact Or.inl ⟨isVisited, by simp [failure?, fails]⟩
    · exact Or.inr ⟨isVisited, by simp [isReadable, members?, reads]⟩

/-- A candidate that is visited is passed over. -/
theorem Tracks.revisit (tracks : Tracks read roots visited growth)
    (isPending : growth.pending = candidate :: pending)
    (isVisited : candidate.systemId ∈ visited) :
    Tracks read roots visited (revisit { growth with pending } candidate) := by
  have contains : Table.contains growth.documents candidate.systemId =
      isReadable read candidate.systemId := by
    rw [Bool.eq_iff_iff, Table.contains_iff, tracks.mem_keys_iff]
    exact and_iff_right isVisited
  refine ⟨tracks.proceeds, tracks.documents_eq, tracks.failed_eq, ?subset, ?roots⟩
  case subset =>
    intro systemId isRoot
    simp only [Growth.revisit] at isRoot
    split at isRoot
    · rcases List.mem_append.mp isRoot with old | new
      · exact tracks.roots_subset systemId old
      · rwa [List.mem_singleton.mp new]
    · exact tracks.roots_subset systemId isRoot
  case roots =>
    rw [← tracks.roots_eq, isPending]
    exact roots_append_fresh growth.roots candidate pending (by rw [← contains]; rfl)

/-- A candidate whose document fails is visited. -/
theorem Tracks.fail (tracks : Tracks read roots visited growth)
    (isPending : growth.pending = candidate :: pending) {diagnostic : Diagnostic}
    (fails : reading read candidate.systemId = .ok (.error diagnostic)) :
    Tracks read roots (visited ++ [candidate.systemId])
      { growth with failed := growth.failed ++ [candidate.systemId], pending } where
  proceeds systemId occurs := by
    rcases List.mem_append.mp occurs with old | new
    · exact tracks.proceeds systemId old
    · rw [List.mem_singleton.mp new]
      exact Or.inl ⟨diagnostic, fails⟩
  documents_eq := by
    have unreadable : members? read candidate.systemId = none := by simp [members?, fails]
    simp [tracks.documents_eq, unreadable]
  failed_eq := by
    have isFailure : failure? read candidate.systemId = some diagnostic := by
      simp [failure?, fails]
    simp [tracks.failed_eq, isFailure]
  roots_subset systemId isRoot := List.mem_append_left _ (tracks.roots_subset systemId isRoot)
  roots_eq := by
    rw [← tracks.roots_eq, isPending]
    apply roots_append_fresh
    simp [isReadable, members?, fails]

/-- A candidate whose document can be read is visited. -/
theorem Tracks.grown (tracks : Tracks read roots visited growth)
    (isPending : growth.pending = candidate :: pending) (unvisited : candidate.systemId ∉ visited)
    {members : Json.Members} {found : List String}
    (reads : reading read candidate.systemId = .ok (.ok members))
    (refers : neighbours candidate.systemId members = .ok found) :
    Tracks read roots (visited ++ [candidate.systemId])
      (Growth.grown { growth with pending } candidate members found) where
  proceeds systemId occurs := by
    rcases List.mem_append.mp occurs with old | new
    · exact tracks.proceeds systemId old
    · rw [List.mem_singleton.mp new]
      exact Or.inr ⟨members, found, reads, refers⟩
  documents_eq := by
    have isMembers : members? read candidate.systemId = some members := by simp [members?, reads]
    have unknown : candidate.systemId ∉ Table.keys growth.documents :=
      fun known => unvisited (tracks.mem_keys_iff.mp known).1
    have extended : Table.set candidate.systemId members growth.documents =
        growth.documents ++ [(candidate.systemId, members)] := Table.set_of_not_contains _ unknown
    change Table.set candidate.systemId members growth.documents = _
    rw [extended, tracks.documents_eq, List.filterMap_append]
    simp [isMembers]
  failed_eq := by
    have noFailure : failure? read candidate.systemId = none := by simp [failure?, reads]
    simp [Growth.grown, Growth.add, tracks.failed_eq, noFailure]
  roots_subset systemId isRoot := by
    simp only [Growth.grown, Growth.add] at isRoot
    split at isRoot
    · exact (List.mem_append.mp isRoot).elim
        (fun old => List.mem_append_left _ (tracks.roots_subset systemId old))
        (List.mem_append_right _)
    · exact List.mem_append_left _ (tracks.roots_subset systemId isRoot)
  roots_eq := by
    have notRoot : candidate.systemId ∉ growth.roots :=
      fun isRoot => unvisited (tracks.roots_subset _ isRoot)
    have noneAwaited (more : List String) :
        awaited read (pending ++ more.map (Candidate.mk · false)) = awaited read pending := by
      have noRoots : (more.map (Candidate.mk · false)).filter Candidate.isRoot = [] :=
        List.filter_eq_nil_iff.mpr (by simp)
      simp only [awaited, List.filter_append, noRoots, List.append_nil]
    rw [← tracks.roots_eq, isPending]
    simp only [Growth.grown, Growth.add, noneAwaited]
    apply roots_append_fresh
    simp [isReadable, members?, reads, notRoot]

end Tracks

end Growth

end Forest

end Typeloom
