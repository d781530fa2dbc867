import Typeloom.Model.Loading
import Typeloom.Proofs.Json.Readable
import Typeloom.Proofs.Schema.Closure

/-!
# Names in a loaded library

The documents of a library that is loaded have different addresses, and the definitions of each
document have different names: both are keys, the former of the table in which the documents are
kept while they are read, the latter of an object in the document.
-/

namespace Typeloom

open Reporting

/-- Whether documents are told apart by their addresses, and the definitions of each document by
their names. -/
structure Library.DistinctNames (library : Library) : Prop where
  systemIds : (library.documents.map Document.systemId).Nodup
  definitions : ∀ document ∈ library.documents, (document.definitions.map Definition.name).Nodup

/-! ## The documents of a forest -/

namespace Forest

variable {read : String → Except Fault (List UInt8)} {directory sources : List String}
  {channel : Channel}

/-- Whether reading the documents of the sources, and those they refer to, comes to an end. -/
def Ends (read : String → Except Fault (List UInt8)) (directory sources : List String)
    (channel : Channel) : Prop :=
  ∀ roots, sources.mapM (Uri.ofSource directory) = .ok roots →
    ∃ states result after,
      Passes (Growth.step read) (.ofRoots roots) channel states result after

theorem ends_of_passes {roots : List String} {states : List Growth}
    {result : Except Stop Growth} {after : Channel}
    (resolved : sources.mapM (Uri.ofSource directory) = .ok roots)
    (passes : Passes (Growth.step read) (.ofRoots roots) channel states result after) :
    Ends read directory sources channel := by
  intro found isFound
  obtain rfl := Except.ok.inj (resolved.symm.trans isFound)
  exact ⟨states, result, after, passes⟩

/-- A document that can be read and refers to no other one is all there is to read. -/
theorem passes_alone {systemId : String} {members : Json.Members}
    (goesOn : channel.poll.1 = false) (reads : reading read systemId = .ok (.ok members))
    (refers : neighbours systemId members = .ok []) :
    ∃ states, Passes (Growth.step read) (.ofRoots [systemId]) channel states
      (.ok { documents := [(systemId, members)], roots := [systemId], pending := [] })
      channel.poll.2 := by
  have grows : onChannel (Growth.step read (.ofRoots [systemId])) channel = _ :=
    Growth.step_of_members rfl rfl goesOn reads refers
  exact ⟨_, .next grows (.last (Growth.step_of_nil rfl _))⟩

/-- Whether documents have different addresses, and each of them is an object in which all keys
are different. -/
def DistinctDocuments (documents : Table String Json.Members) : Prop :=
  (Table.keys documents).Nodup ∧
    ∀ members ∈ Table.values documents, (Json.object members).DistinctKeys

/-- Whether documents have different addresses, and each of them is an object that can be read. -/
def ReadableDocuments (documents : Table String Json.Members) : Prop :=
  (Table.keys documents).Nodup ∧
    ∀ members ∈ Table.values documents, (Json.object members).IsReadable

theorem isReadable_of_decode {bytes : List UInt8} {value : Json}
    (decodes : decode bytes = .ok value) : value.IsReadable := by
  obtain ⟨text, -, reads⟩ := exists_of_bind_eq_ok decodes
  unfold Json.readSettled at reads
  dsimp only at reads
  cases outcome : Json.readCharacters text.toList with
  | ok result =>
      rw [outcome] at reads
      cases reads
      exact Json.isReadable_of_readCharacters outcome
  | error refusal =>
      rw [outcome] at reads
      cases refusal <;> cases reads

theorem isReadable_of_reading {systemId : String} {members : Json.Members}
    (reads : reading read systemId = .ok (.ok members)) : (Json.object members).IsReadable := by
  unfold reading at reads
  dsimp only at reads
  split at reads <;> cases reads
  rename_i decodes
  obtain ⟨bytes, -, decodes⟩ := exists_of_bind_eq_ok decodes
  exact isReadable_of_decode decodes

theorem readableDocuments_step {growth next : Growth} {after : Channel}
    (readable : ReadableDocuments growth.documents)
    (returns : onChannel (Growth.step read growth) channel = (.ok (some next), after)) :
    ReadableDocuments next.documents := by
  cases Growth.advances_of_step returns with
  | settled => exact readable
  | failed => exact readable
  | grown _ reads _ =>
      refine ⟨Table.nodup_keys_set readable.1, fun other occurs => ?_⟩
      rcases Table.mem_values_set occurs with rfl | old
      · exact isReadable_of_reading reads
      · exact readable.2 other old

/-- A forest is what has grown from the sources in the end, without a failure. -/
theorem exists_growth_of_load {forest : Forest} {after : Channel}
    (ends : Ends read directory sources channel)
    (returns : onChannel (load read directory sources) channel = (.ok (some forest), after)) :
    ∃ roots growth states, Passes (Growth.step read) (.ofRoots roots) channel states (.ok growth)
      after ∧ growth.failed = [] ∧ growth.pending = [] ∧ forest.documents = growth.documents := by
  obtain ⟨roots, _, resolves, rest⟩ := exists_of_onChannel_bind returns
  obtain ⟨resolved, rfl⟩ := of_onChannel_ofExcept resolves
  obtain ⟨growth, _, grown, last⟩ := exists_of_onChannel_bind rest
  obtain ⟨states, result, after, passes⟩ := ends roots resolved
  obtain ⟨rfl, rfl⟩ := Prod.mk.inj (passes.onChannel_eq.symm.trans grown)
  obtain ⟨_, taken⟩ := passes.exists_last
  split at last <;> cases last
  rename_i noFailure
  exact ⟨roots, growth, states, passes, List.isEmpty_iff.mp noFailure,
    Growth.pending_eq_nil_of_step taken, rfl⟩

theorem ReadableDocuments.distinctDocuments {documents : Table String Json.Members}
    (readable : ReadableDocuments documents) : DistinctDocuments documents :=
  ⟨readable.1, fun members occurs => (readable.2 members occurs).distinctKeys⟩

/-- The documents of a forest have different addresses, and they can be read. -/
theorem readableDocuments_of_load {forest : Forest} {after : Channel}
    (ends : Ends read directory sources channel)
    (returns : onChannel (load read directory sources) channel = (.ok (some forest), after)) :
    ReadableDocuments forest.documents := by
  obtain ⟨roots, growth, _, passes, _, _, isDocuments⟩ := exists_growth_of_load ends returns
  rw [isDocuments]
  refine Passes.keeps (fun growth => ReadableDocuments growth.documents) passes
    (fun _ _ _ _ => readableDocuments_step) ?_
  exact ⟨List.nodup_nil, by simp [Growth.ofRoots, Table.values]⟩

theorem distinctDocuments_of_load {forest : Forest} {after : Channel}
    (ends : Ends read directory sources channel)
    (returns : onChannel (load read directory sources) channel = (.ok (some forest), after)) :
    DistinctDocuments forest.documents :=
  (readableDocuments_of_load ends returns).distinctDocuments

end Forest

/-! ## The documents of a library -/

namespace Loading

/-- The definitions that are read are some of the entries, in their order. -/
theorem sublist_of_readDefinitions {systemId keyword : String} {entries : Json.Members}
    {definitions : List Definition} {channel after : Channel}
    (returns : onChannel (SchemaReader.readDefinitions systemId keyword entries) channel =
      (.ok definitions, after)) :
    (definitions.map Definition.name).Sublist (Table.keys entries) := by
  induction entries generalizing definitions channel with
  | nil => cases returns; exact .slnil
  | cons entry entries ih =>
      obtain ⟨name, body⟩ := entry
      rw [SchemaReader.readDefinitions] at returns
      obtain ⟨_, _, _, returns⟩ := exists_of_onChannel_bind returns
      dsimp only at returns
      split at returns
      · exact (ih returns).cons name
      · split at returns
        · obtain ⟨node, _, _, returns⟩ := exists_of_onChannel_bind returns
          obtain ⟨rest, _, later, returns⟩ := exists_of_onChannel_bind returns
          cases returns
          exact (ih later).cons_cons name
        · obtain ⟨_, _, _, returns⟩ := exists_of_onChannel_bind returns
          exact (ih returns).cons name

theorem distinct_of_optionalMembers {value : Json} {members : Json.Members}
    (distinct : value.DistinctKeys) (found : SchemaReader.optionalMembers value = .ok members) :
    (Table.keys members).Nodup := by
  unfold SchemaReader.optionalMembers at found
  split at found
  · cases distinct <;> cases found
    assumption
  · cases found
    exact List.nodup_nil

theorem get?_of_optionalMembers {members entries : Json.Members} {keyword : String}
    {entry : String × Json}
    (areEntries : SchemaReader.optionalMembers (Json.memberOrNull members keyword) = .ok entries)
    (occurs : entry ∈ entries) : Table.get? members keyword = some (.object entries) := by
  unfold Json.memberOrNull SchemaReader.optionalMembers at areEntries
  cases known : Table.get? members keyword with
  | none =>
      rw [known] at areEntries
      cases areEntries
      cases occurs
  | some value =>
      rw [known] at areEntries
      dsimp only [Option.getD_some] at areEntries
      split at areEntries
      · cases value <;> cases areEntries
        rfl
      · cases areEntries
        cases occurs

/-- The definitions of a document are read from the entries under the keyword for them. -/
theorem exists_entries_of_readDocument {systemId rootName : String} {members : Json.Members}
    {document : Document} {channel after : Channel}
    (returns : onChannel (SchemaReader.readDocument systemId rootName (.object members)) channel =
      (.ok document, after)) :
    document.systemId = systemId ∧ ∃ entries between,
      SchemaReader.optionalMembers
          (Json.memberOrNull members (SchemaReader.definitionsKeyword members)) = .ok entries ∧
        onChannel (SchemaReader.readDefinitions systemId
          (SchemaReader.definitionsKeyword members) entries) channel =
            (.ok document.definitions, between) := by
  obtain ⟨own, _, isOwn, afterOwn⟩ := exists_of_onChannel_bind returns
  obtain ⟨isMembers, rfl⟩ := of_onChannel_ofExcept isOwn
  cases isMembers
  obtain ⟨entries, _, areEntries, afterEntries⟩ := exists_of_onChannel_bind afterOwn
  obtain ⟨isEntries, rfl⟩ := of_onChannel_ofExcept areEntries
  obtain ⟨definitions, between, areRead, rest⟩ := exists_of_onChannel_bind afterEntries
  dsimp only at rest
  split at rest
  all_goals
    obtain ⟨root, _, _, last⟩ := exists_of_onChannel_bind rest
    cases last
    exact ⟨rfl, entries, between, isEntries, areRead⟩

theorem of_readDocument {systemId rootName : String} {members : Json.Members}
    {document : Document} {channel after : Channel}
    (distinct : (Json.object members).DistinctKeys)
    (returns : onChannel (SchemaReader.readDocument systemId rootName (.object members)) channel =
      (.ok document, after)) :
    document.systemId = systemId ∧ (document.definitions.map Definition.name).Nodup := by
  obtain ⟨isOwn, entries, _, areEntries, areRead⟩ := exists_entries_of_readDocument returns
  refine ⟨isOwn, List.Nodup.sublist (sublist_of_readDefinitions areRead) ?_⟩
  exact distinct_of_optionalMembers (distinct.memberOrNull _) areEntries

theorem of_readDocuments {entries : Table String Json.Members} {documents : List Document}
    {channel after : Channel}
    (distinct : ∀ members ∈ Table.values entries, (Json.object members).DistinctKeys)
    (returns : onChannel (readDocuments entries) channel = (.ok documents, after)) :
    documents.map Document.systemId = Table.keys entries ∧
      ∀ document ∈ documents, (document.definitions.map Definition.name).Nodup := by
  induction entries generalizing documents channel with
  | nil => cases returns; exact ⟨rfl, by simp⟩
  | cons entry entries ih =>
      obtain ⟨systemId, members⟩ := entry
      obtain ⟨ofFirst, ofRest⟩ := List.forall_mem_cons.mp distinct
      unfold readDocuments at returns
      rw [List.mapM_cons] at returns
      obtain ⟨document, _, first, rest⟩ := exists_of_onChannel_bind returns
      obtain ⟨others, _, later, last⟩ := exists_of_onChannel_bind rest
      cases last
      obtain ⟨rootName, _, _, isRead⟩ := exists_of_onChannel_bind first
      obtain ⟨isKey, named⟩ := of_readDocument ofFirst isRead
      obtain ⟨areKeys, allNamed⟩ := ih ofRest later
      refine ⟨?_, List.forall_mem_cons.mpr ⟨named, allNamed⟩⟩
      rw [List.map_cons, isKey, areKeys]
      rfl

/-- The documents of a library that is loaded have different addresses, and the definitions of
each document have different names. -/
theorem distinctNames_of_loadLibrary {read : String → Except Fault (List UInt8)}
    {directory sources : List String} {channel after : Channel} {library : Library}
    (ends : Forest.Ends read directory sources channel)
    (returns : onChannel (loadLibrary read directory sources) channel =
      (.ok (some library), after)) : library.DistinctNames := by
  obtain ⟨forest?, _, loads, rest⟩ := exists_of_onChannel_bind returns
  cases forest? with
  | none => cases rest
  | some forest =>
      have distinct := Forest.distinctDocuments_of_load ends loads
      obtain ⟨documents, areRead, isLibrary, -⟩ := exists_of_onChannel_unless rest fun _ _ => rfl
      have named := of_readDocuments distinct.2 areRead
      cases isLibrary
      exact ⟨named.1 ▸ distinct.1, named.2⟩

end Loading

/-! ## One document -/

section Alone

variable {read : String → Except Fault (List UInt8)} {members : Json.Members}

theorem Forest.passes_of_members (isRead : members? read "file:///a" = some members)
    (alone : externalReferences (.object members) = []) :
    ∃ states, Passes (Growth.step read) (.ofRoots ["file:///a"]) {} states
      (.ok { documents := [("file:///a", members)], roots := ["file:///a"], pending := [] })
      { polls := 1 } := by
  refine passes_alone (by rfl) (members?_eq_some_iff.mp isRead) ?_
  rw [neighbours, alone]
  rfl

/-- What is loaded from a document that refers to no other one. -/
theorem Loading.onChannel_alone (isRead : Forest.members? read "file:///a" = some members)
    (alone : Forest.externalReferences (.object members) = []) :
    onChannel (loadLibrary read [] ["file:///a"]) {} =
      onChannel (do
        let (documents, hadError) ← watching (readDocuments [("file:///a", members)])
        return if hadError then none else some { documents }) { polls := 1 } := by
  have resolved : ["file:///a"].mapM (Uri.ofSource []) = .ok ["file:///a"] := by rfl
  obtain ⟨states, passes⟩ := Forest.passes_of_members isRead alone
  rw [loadLibrary, onChannel_bind, Forest.onChannel_load resolved, passes.onChannel_eq]
  rfl

end Alone

/-- The definitions of a class with a base, which it refers to by an alias. -/
def aliasedBase : Json.Members :=
  [("definitions", .object
    [("Base", .object [("properties", .object [("a", .object [("type", .text "string")])])]),
     ("Alias", .object [("$ref", .text "#/definitions/Base")]),
     ("Derived", .object
      [("allOf", .array
        [.object [("$ref", .text "#/definitions/Alias")],
         .object [("properties", .object [("b", .object [("type", .text "string")])])]])])])]

/-- A document with these definitions. -/
def readAliasedBase (_ : String) : Except Fault (List UInt8) :=
  .ok ("\x7b\"definitions\": \x7b" ++
    "\"Base\": \x7b\"properties\": \x7b\"a\": \x7b\"type\": \"string\"\x7d\x7d\x7d, " ++
    "\"Alias\": \x7b\"$ref\": \"#/definitions/Base\"\x7d, " ++
    "\"Derived\": \x7b\"allOf\": [\x7b\"$ref\": \"#/definitions/Alias\"\x7d, " ++
      "\x7b\"properties\": \x7b\"b\": \x7b\"type\": \"string\"\x7d\x7d\x7d]\x7d\x7d\x7d").toUTF8.toList

namespace Forest

theorem members?_aliasedBase : members? readAliasedBase "file:///a" = some aliasedBase := by
  decide +kernel

theorem externalReferences_aliasedBase : externalReferences (.object aliasedBase) = [] := by
  decide +kernel

theorem ends_aliasedBase : Ends readAliasedBase [] ["file:///a"] {} := by
  obtain ⟨states, passes⟩ := passes_of_members members?_aliasedBase externalReferences_aliasedBase
  exact ends_of_passes (by rfl) passes

end Forest

theorem Loading.onChannel_aliasedBase :
    onChannel (loadLibrary readAliasedBase [] ["file:///a"]) {} =
      onChannel (do
        let (documents, hadError) ← watching (readDocuments [("file:///a", aliasedBase)])
        return if hadError then none else some { documents }) { polls := 1 } :=
  onChannel_alone Forest.members?_aliasedBase Forest.externalReferences_aliasedBase

end Typeloom
