import Typeloom.Proofs.Schema.Shape
import Typeloom.Proofs.Schema.Walk

/-!
# A reference that leads ever further

A segment for the current directory whose point is written as `%2e` stays in an address.  So a
document that refers to itself with such a segment in front is found at infinitely many addresses,
although there is only one file, and reading it never ends.
-/

namespace Typeloom

open Forest Reporting Transcript

namespace Uri

/-- The parts of the address of a file. -/
theorem parse_file {path : List Char} (absolute : path.head? = some '/')
    (plain : ∀ character ∈ path, character ∉ ['#', '?', '\t', '\r', '\n']) :
    parse (String.ofList ("file://".toList ++ path)) =
      .ok { scheme := "file".toList, authority := [], path, parameters := [], query := []
            fragment := [] } := by
  have noMark (mark : Char) (isMark : mark ∈ ['#', '?', '\t', '\r', '\n']) : mark ∉ path :=
    fun occurs => plain mark occurs isMark
  have isCleaned : cleaned ("file://".toList ++ path) = "file://".toList ++ path := by
    change ("file://".toList ++ path).filter _ = _
    refine List.filter_eq_self.mpr fun character occurs => ?_
    rcases List.mem_append.mp occurs with isPrefix | inPath
    · have noBlanks : ∀ character ∈ "file://".toList,
          (!(character = '\t' || character = '\r' || character = '\n')) = true := by
        simp
      exact noBlanks character isPrefix
    · have noBlank := plain character inPath
      simp only [List.mem_cons, not_or] at noBlank
      simp [noBlank]
  have hasScheme :
      cutScheme ("file://".toList ++ path) [] = ("file".toList, '/' :: '/' :: path) := by
    rfl
  have hasAuthority : cutAuthority ('/' :: '/' :: path) = ([], path) := by
    cases path with
    | nil => cases absolute
    | cons first rest => cases absolute; rfl
  unfold parse parseWith
  simp only [String.toList_ofList, isCleaned, hasScheme, hasAuthority]
  rw [Text.cut_of_notMem (noMark '#' (by simp))]
  simp only [Text.cut_of_notMem (noMark '?' (by simp))]
  rfl

theorem write_file {path : List Char} (absolute : path.head? = some '/')
    (noAuthority : path.take 2 ≠ ['/', '/']) :
    write { scheme := "file".toList, authority := [], path, parameters := [], query := []
            fragment := [] } = String.ofList ("file://".toList ++ path) := by
  have hasAuthority : isOneOf "file".toList authoritySchemes = true := by decide
  have isPrefix : "file://".toList = "file".toList ++ ':' :: '/' :: '/' :: [] := by decide
  have nonempty : "file".toList.isEmpty = false := by decide
  unfold write writeHierarchy markedPart
  simp only [hasAuthority, nonempty, absolute, isPrefix, List.isEmpty_nil, Bool.not_true,
    Bool.not_false, Bool.false_or, Bool.true_and, Bool.false_eq_true, bne_iff_ne, ne_eq,
    noAuthority, not_false_eq_true, if_true, if_false, List.append_nil, List.nil_append,
    List.append_assoc, List.cons_append, decide_true, Bool.or_true]

/-! ## Nested addresses -/

/-- The path of a file behind a number of segments for the current directory. -/
def nestedPath : Nat → List Char
  | 0 => "/d".toList
  | depth + 1 => "/%2e".toList ++ nestedPath depth

/-- The address of a file behind a number of segments for the current directory. -/
def nestedAddress (depth : Nat) : String :=
  String.ofList ("file://".toList ++ nestedPath depth)

theorem length_nestedPath (depth : Nat) : (nestedPath depth).length = 4 * depth + 2 := by
  induction depth with
  | zero => rfl
  | succ depth ih =>
      rw [nestedPath, List.length_append, ih]
      change 4 + _ = _
      omega

theorem nestedAddress_injective {depth other : Nat}
    (same : nestedAddress depth = nestedAddress other) : depth = other := by
  have paths := List.append_cancel_left (String.ofList_injective same)
  have lengths := congrArg List.length paths
  rw [length_nestedPath, length_nestedPath] at lengths
  omega

theorem head?_nestedPath (depth : Nat) : (nestedPath depth).head? = some '/' := by
  cases depth <;> rfl

theorem parse_nestedAddress (depth : Nat) : parse (nestedAddress depth) =
    .ok { scheme := "file".toList, authority := [], path := nestedPath depth, parameters := []
          query := [], fragment := [] } := by
  refine parse_file (head?_nestedPath depth) ?_
  induction depth with
  | zero => simp [nestedPath]
  | succ depth ih =>
      rw [nestedPath, List.forall_mem_append]
      exact ⟨by simp, ih⟩

theorem pieces_nestedPath (depth : Nat) : Text.pieces '/' (nestedPath depth) =
    ([] :: List.replicate depth "%2e".toList) ++ ["d".toList] := by
  induction depth with
  | zero => rfl
  | succ depth ih =>
      change Text.pieces '/' ('/' :: '%' :: '2' :: 'e' :: nestedPath depth) = _
      simp [Text.pieces, ih, List.replicate_succ]

theorem resolveSegments_eq_self {segments : List (List Char)}
    (plain : ∀ segment ∈ segments, segment ≠ ['.', '.'] ∧ segment ≠ ['.']) :
    resolveSegments segments = segments := by
  have goesOn (kept : List (List Char)) :
      segments.foldl (fun kept segment =>
        if segment = ['.', '.'] then kept.drop 1
        else if segment = ['.'] then kept
        else segment :: kept) kept = segments.reverse ++ kept := by
    induction segments generalizing kept with
    | nil => rfl
    | cons segment rest ih =>
        obtain ⟨⟨noParent, noCurrent⟩, plainRest⟩ := List.forall_mem_cons.mp plain
        rw [List.foldl_cons, if_neg noParent, if_neg noCurrent, ih plainRest]
        simp
  rw [resolveSegments, goesOn, List.append_nil, List.reverse_reverse]

/-- A path without segments for other directories is put behind the directory of another one. -/
theorem joinPaths_of_plain {base path : List Char} {segments : List (List Char)}
    (relative : path.head? ≠ some '/')
    (areSegments : withoutInnerGaps (directorySegments base ++ Text.pieces '/' path) = segments)
    (plain : ∀ segment ∈ segments, segment ≠ ['.', '.'] ∧ segment ≠ ['.'])
    (nonempty : (Text.joined '/' segments).isEmpty = false) :
    joinPaths base path = Text.joined '/' segments := by
  have noDots : (decide (segments.getLast? = some ['.']) ||
      decide (segments.getLast? = some ['.', '.'])) = false := by
    rw [Bool.or_eq_false_iff, decide_eq_false_iff_not, decide_eq_false_iff_not]
    exact ⟨fun isLast => (plain _ (List.mem_of_getLast? isLast)).2 rfl,
      fun isLast => (plain _ (List.mem_of_getLast? isLast)).1 rfl⟩
  unfold joinPaths
  simp only [if_neg relative, areSegments, resolveSegments_eq_self plain, noDots, nonempty,
    Bool.false_eq_true, if_false]

/-- From a nested path the reference leads one segment further. -/
theorem joinPaths_nestedPath (depth : Nat) :
    joinPaths (nestedPath depth) "%2e/d".toList = nestedPath (depth + 1) := by
  have directory : directorySegments (nestedPath depth) =
      [] :: List.replicate depth "%2e".toList := by
    rw [directorySegments, pieces_nestedPath, List.getLast?_concat, List.dropLast_concat]
    rfl
  have noGap : (List.replicate (depth + 1) "%2e".toList).filter
      (fun segment => !segment.isEmpty) = List.replicate (depth + 1) "%2e".toList := by
    refine List.filter_eq_self.mpr fun segment occurs => ?_
    rw [List.eq_of_mem_replicate occurs]
    rfl
  have areSegments : withoutInnerGaps (directorySegments (nestedPath depth) ++
      Text.pieces '/' "%2e/d".toList) = Text.pieces '/' (nestedPath (depth + 1)) := by
    have isPieces : Text.pieces '/' "%2e/d".toList = ["%2e".toList] ++ ["d".toList] := by rfl
    rw [directory, pieces_nestedPath, isPieces, ← List.append_assoc, List.cons_append,
      ← List.replicate_succ', List.cons_append, withoutInnerGaps, List.dropLast_concat,
      List.getLast?_concat, noGap]
    · rfl
    · simp
  -- A point that is written as a percent escape does not count as a segment for a directory.
  have plain : ∀ segment ∈ Text.pieces '/' (nestedPath (depth + 1)),
      segment ≠ ['.', '.'] ∧ segment ≠ ['.'] := by
    intro segment occurs
    rw [pieces_nestedPath, List.mem_append, List.mem_cons] at occurs
    rcases occurs with (rfl | repeats) | isLast
    · decide
    · rw [List.eq_of_mem_replicate repeats]
      decide
    · rw [List.mem_singleton.mp isLast]
      decide
  rw [joinPaths_of_plain (by decide) areSegments plain (by rw [Text.joined_pieces]; rfl),
    Text.joined_pieces]

theorem documentOf_nestedAddress (depth : Nat) :
    documentOf (nestedAddress depth) "%2e/d" = .ok (nestedAddress (depth + 1)) := by
  have hasCharacters : "file://".toList ≠ [] := by decide
  have nonempty : (nestedAddress depth).isEmpty = false := by
    rw [String.isEmpty_eq_false_iff]
    intro isEmpty
    exact hasCharacters (List.append_eq_nil_iff.mp (String.ofList_eq_empty_iff.mp isEmpty)).1
  have isReference : parseWith "file".toList (Text.before '#' "%2e/d").toList =
      .ok { scheme := "file".toList, authority := [], path := "%2e/d".toList, parameters := []
            query := [], fragment := [] } := by
    rfl
  unfold documentOf join
  rw [nonempty, if_neg (by simp), if_neg (by decide), parse_nestedAddress]
  simp only [bind, Except.bind, isReference]
  rw [if_neg (by decide)]
  rw [completed, if_neg (by decide)]
  simp only [joinPaths_nestedPath]
  rw [if_neg (by decide), ite_self]
  exact congrArg Except.ok (write_file (head?_nestedPath _) (by simp [nestedPath]))

end Uri

namespace Forest

/-- A document that refers to a document of the same name in the current directory. -/
def nestedReference : Json.Members :=
  [("$ref", .text "%2e/d")]

/-- A file that every nested address leads to. -/
def readNested (_ : String) : Except Fault (List UInt8) :=
  .ok "\x7b\"$ref\": \"%2e/d\"\x7d".toUTF8.toList

theorem reading_readNested (systemId : String) :
    reading readNested systemId = .ok (.ok nestedReference) := by
  have decodes : readNested systemId >>= decode = .ok (.object nestedReference) := by
    change decode "\x7b\"$ref\": \"%2e/d\"\x7d".toUTF8.toList = _
    decide +kernel
  unfold reading
  simp only [decodes]

theorem shape_nestedReference : SchemaReader.DocumentShape nestedReference where
  definitions := by
    have missing : ∀ keyword ∈ ["definitions", "$defs"], nestedReference.get? keyword = none := by
      decide
    intro keyword isKeyword value isSome
    rw [missing keyword isKeyword] at isSome
    cases isSome
  package := by
    have missing : nestedReference.get? "x-package" = none := by decide
    intro value isSome
    rw [missing] at isSome
    cases isSome
  parts := by
    have noParts : SchemaReader.documentParts nestedReference = [] := by rfl
    simp [noParts]

theorem externalReferences_nestedReference :
    externalReferences (.object nestedReference) = ["%2e/d"] := by
  decide +kernel

theorem exists_depth_of_found {systemId : String}
    (found : Found readNested [Uri.nestedAddress 0] systemId) :
    ∃ depth, systemId = Uri.nestedAddress depth := by
  induction found with
  | source isRoot => exact ⟨0, List.mem_singleton.mp isRoot⟩
  | @reference origin reference target members _ isRead occurs leads ih =>
      obtain ⟨depth, rfl⟩ := ih
      rw [reading_readNested] at isRead
      cases isRead
      rw [externalReferences_nestedReference, List.mem_singleton] at occurs
      rw [occurs, Uri.documentOf_nestedAddress] at leads
      cases leads
      exact ⟨depth + 1, rfl⟩

/-- A nested address is the only one that is still to be looked at, and those with fewer segments
have been. -/
structure Growth.IsNested (depth : Nat) (growth : Growth) : Prop where
  failed : growth.failed = []
  pending : ∃ isRoot, growth.pending = [{ systemId := Uri.nestedAddress depth, isRoot }]
  documents : ∀ entry ∈ growth.documents, ∃ earlier < depth, entry.1 = Uri.nestedAddress earlier

/-- An address is new if all documents are at addresses with fewer segments. -/
theorem contains_nestedAddress {documents : Table String Json.Members} {depth : Nat}
    (earlier : ∀ entry ∈ documents, ∃ before < depth, entry.1 = Uri.nestedAddress before) :
    Table.contains documents (Uri.nestedAddress depth) = false := by
  rw [Bool.eq_false_iff, ne_eq, Table.contains_iff]
  intro known
  obtain ⟨entry, isEntry, isKey⟩ := List.mem_map.mp known
  obtain ⟨before, isBefore, isNested⟩ := earlier entry isEntry
  have same := Uri.nestedAddress_injective (isNested.symm.trans isKey)
  omega

/-- Each step leads to the next nested address. -/
theorem Growth.IsNested.step {depth : Nat} {growth : Growth} (nested : growth.IsNested depth) :
    ∃ next, Reporting.Ends (Growth.step readNested growth) [.poll] (.ok (some next)) ∧
      next.IsNested (depth + 1) := by
  obtain ⟨documents, roots, failed, pending⟩ := growth
  obtain ⟨rfl, ⟨isRoot, rfl⟩, earlier⟩ := nested
  let candidate : Candidate := { systemId := Uri.nestedAddress depth, isRoot }
  let target := Uri.nestedAddress (depth + 1)
  have unsettled : Growth.isSettled { documents, roots, failed := [], pending := [] }
      (Uri.nestedAddress depth) = false := by
    rw [Growth.isSettled, contains_nestedAddress earlier]
    rfl
  have refers : neighbours (Uri.nestedAddress depth) nestedReference = .ok [target] := by
    rw [neighbours, externalReferences_nestedReference, List.mapM_cons,
      Uri.documentOf_nestedAddress]
    rfl
  have isRead := reading_readNested candidate.systemId
  let rest : Growth := { documents, roots, failed := [], pending := [] }
  have visits : Reporting.Ends (rest.visit readNested candidate) [.poll]
      (.ok (rest.grown candidate nestedReference [target])) :=
    ends_visit_of_members isRead refers
  refine ⟨rest.grown candidate nestedReference [target], ?_, ?_⟩
  · unfold Growth.step
    dsimp only
    rw [unsettled, if_neg (by simp)]
    exact visits.bind_last (ends_pure _)
  · have isKnown : ∀ entry ∈ Table.set (Uri.nestedAddress depth) nestedReference documents,
        ∃ before < depth + 1, entry.1 = Uri.nestedAddress before := by
      intro entry occurs
      rcases Table.mem_set occurs with rfl | old
      · exact ⟨depth, Nat.lt_succ_self depth, rfl⟩
      · obtain ⟨before, isBefore, isNested⟩ := earlier entry old
        exact ⟨before, Nat.lt_succ_of_lt isBefore, isNested⟩
    refine ⟨rfl, ⟨false, ?_⟩, isKnown⟩
    simp [rest, Growth.grown, Growth.add, candidate, contains_nestedAddress isKnown, target]

/-- Loading a document that refers to itself at a nested address never ends. -/
theorem endless_load_readNested (directory : List String) :
    Endless (load readNested directory [Uri.nestedAddress 0]) := by
  have areRoots : [Uri.nestedAddress 0].mapM (Uri.ofSource directory) =
      .ok [Uri.nestedAddress 0] := by
    rfl
  have begins : (Growth.ofRoots [Uri.nestedAddress 0]).IsNested 0 :=
    ⟨rfl, ⟨true, rfl⟩, by simp [Growth.ofRoots]⟩
  have grows : Endless (repeated (Growth.step readNested) (.ofRoots [Uri.nestedAddress 0])) := by
    have goesOn : ∀ growth, (∃ depth, Growth.IsNested depth growth) →
        ∃ transcript next, IsPlain transcript ∧ 0 < polls transcript ∧
          Reporting.Ends (Growth.step readNested growth) transcript (.ok (some next)) ∧
          ∃ depth, Growth.IsNested depth next := by
      rintro growth ⟨depth, nested⟩
      obtain ⟨next, ends, nestedNext⟩ := nested.step
      exact ⟨_, next, by simp [IsPlain, Act.IsPlain], by simp [polls, Act.isPoll], ends, _,
        nestedNext⟩
    exact endless_repeated goesOn ⟨0, begins⟩
  unfold load
  rw [areRoots]
  exact (ends_ofExcept _).endless_bind isPlain_nil (grows.bind _)

end Forest

end Typeloom
