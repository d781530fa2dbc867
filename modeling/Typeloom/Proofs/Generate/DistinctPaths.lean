import Mathlib.Data.List.Perm.Basic
import Typeloom.Proofs.Failing
import Typeloom.Proofs.Files.Units
import Typeloom.Proofs.Render.Files

/-!
# Distinct paths

No two C# files have the same path.  Two Python files have the same path if and only if two names
of a package lead to the same module, and that takes an underscore in one of them.
-/

namespace Typeloom

/-! ## Partitions -/

/-- A list is made up of its parts under different keys. -/
theorem List.perm_flatMap_filter {α β : Type} [DecidableEq β] {key : α → β} {keys : List β}
    {items : List α} (distinct : keys.Nodup) (haveKeys : ∀ item ∈ items, key item ∈ keys) :
    (keys.flatMap fun found => items.filter fun item => key item = found).Perm items := by
  induction keys generalizing items with
  | nil =>
      obtain rfl : items = [] := List.eq_nil_iff_forall_not_mem.mpr fun item occurs =>
        nomatch haveKeys item occurs
      exact .refl _
  | cons first rest ih =>
      obtain ⟨isNew, distinct⟩ := List.nodup_cons.mp distinct
      -- The first key takes nothing away from the other ones.
      have others : (rest.flatMap fun found => items.filter fun item => key item = found) =
          rest.flatMap fun found =>
            (items.filter fun item => !decide (key item = first)).filter fun item =>
              key item = found := by
        refine List.flatMap_congr fun found occurs => ?_
        rw [List.filter_filter]
        refine List.filter_congr fun item _ => ?_
        have differs : found ≠ first := fun same => isNew (same ▸ occurs)
        by_cases same : key item = found <;> simp [same, differs]
      have restPerm := @ih (items.filter fun item => !decide (key item = first)) distinct
        fun item occurs => by
          obtain ⟨isItem, notFirst⟩ := List.mem_filter.mp occurs
          exact (List.mem_cons.mp (haveKeys item isItem)).resolve_left (by simpa using notFirst)
      rw [List.flatMap_cons, others]
      exact (restPerm.append_left _).trans (List.filter_append_perm _ items)

/-! ## Files of an outline -/

/-- The package and the name of a file. -/
def GeneratedFile.identity (file : GeneratedFile) : Json × String :=
  (file.package, file.fileName)

namespace TargetLanguage

variable {outline : Outline}

/-- The package and the name of the file of a class or enum. -/
def identityOf (language : TargetLanguage) (entry : TypeOutline) : Json × String :=
  (entry.package, language.stemOf entry.name ++ language.fileEnd)

/-- Whether a package has a file of its own. -/
def hasPackageFile : TargetLanguage → Json → Bool
  | .python, package => package.isTruthy
  | .csharp, _ => false

/-- What is made of the numbered entries of a package and does not depend on their numbers. -/
theorem map_filter_zipIdx {β : Type} (haveTexts : outline.HasPackageTexts) (package : Json)
    (classes : Bool) (view : TypeOutline → β) :
    ((outline.entries.zipIdx.filter fun pair =>
        pair.1.isClass == classes && pair.1.package.equal package).map fun pair => view pair.1) =
      ((outline.entries.filter fun entry => entry.isClass == classes).filter fun entry =>
        entry.package = package).map view := by
  have sameTest : ∀ entry ∈ outline.entries,
      (entry.isClass == classes && entry.package.equal package) =
        (decide (entry.package = package) && (entry.isClass == classes)) := by
    intro entry occurs
    obtain ⟨text, isText⟩ := haveTexts entry occurs
    have same : (Json.text text).equal package = decide (Json.text text = package) := by
      rw [Bool.eq_iff_iff, Json.equal_text_iff, decide_eq_true_iff, eq_comm]
    rw [isText, same, Bool.and_comm]
  have isNumbered := List.filter_map (p := fun entry : TypeOutline =>
    entry.isClass == classes && entry.package.equal package) (f := Prod.fst)
    (l := outline.entries.zipIdx)
  rw [List.zipIdx_map_fst] at isNumbered
  rw [List.filter_filter, ← List.filter_congr sameTest, isNumbered, List.map_map]
  rfl

/-- The files of a package. -/
def filesOf : TargetLanguage → Outline → Json → List GeneratedFile
  | .python => Python.filesOf
  | .csharp => CSharp.filesOf

theorem files_eq_flatMap (language : TargetLanguage) (outline : Outline) :
    language.files outline = outline.packages.flatMap (language.filesOf outline) := by
  cases language <;> rfl

theorem perm_filesOf (haveTexts : outline.HasPackageTexts) (language : TargetLanguage)
    (package : Json) :
    ((language.filesOf outline package).map GeneratedFile.identity).Perm
      ((outline.entries.filter fun entry => entry.package = package).map language.identityOf ++
        if language.hasPackageFile package then
          [(package, "__init__" ++ language.fileEnd)] else []) := by
  let entriesOf (classes : Bool) : List (Json × String) :=
    ((outline.entries.filter fun entry => entry.isClass == classes).filter fun entry =>
      entry.package = package).map language.identityOf
  have isSplit : (entriesOf true ++ entriesOf false).Perm
      ((outline.entries.filter fun entry => entry.package = package).map language.identityOf) := by
    have ofBoth := List.filter_append_perm (fun entry : TypeOutline => entry.isClass == true)
      outline.entries
    have areEnums : (fun entry : TypeOutline => !(entry.isClass == true)) =
        fun entry => entry.isClass == false := by
      funext entry
      cases entry.isClass <;> rfl
    rw [areEnums] at ofBoth
    have inPackage := ofBoth.filter fun entry => entry.package = package
    rw [List.filter_append] at inPackage
    rw [← List.map_append]
    exact inPackage.map _
  have sameKeys (classes : Bool) :
      ((outline.entries.filter fun entry => entry.isClass == classes).filter fun entry =>
        entry.package = package).map
          (fun entry => (package, language.stemOf entry.name ++ language.fileEnd)) =
        entriesOf classes := by
    refine List.map_congr_left fun entry occurs => ?_
    have isPackage := of_decide_eq_true (List.mem_filter.mp occurs).2
    rw [identityOf, isPackage]
  have numbered (classes : Bool) := (map_filter_zipIdx haveTexts package classes
    fun entry => (package, language.stemOf entry.name ++ language.fileEnd)).trans (sameKeys classes)
  refine List.Perm.trans (.of_eq ?_) (isSplit.append_right _)
  rw [← numbered true, ← numbered false]
  cases language with
  | python =>
      rw [filesOf, Python.filesOf, List.map_append, List.map_append, List.map_map, List.map_map]
      refine congrArg₂ (· ++ ·) rfl ?_
      by_cases isNamed : package.isTruthy = true
      · rw [if_pos isNamed, if_pos (show hasPackageFile .python package = true from isNamed)]
        rfl
      · rw [if_neg isNamed, if_neg (show ¬hasPackageFile .python package = true from isNamed)]
        rfl
  | csharp =>
      rw [filesOf, CSharp.filesOf]
      dsimp only
      rw [List.map_append, List.map_append, List.map_map, List.map_map]
      exact (List.append_nil _).symm

/-- The files of an outline are those of its classes and enums and those of its packages. -/
theorem perm_identities (haveTexts : outline.HasPackageTexts) (language : TargetLanguage) :
    ((language.files outline).map GeneratedFile.identity).Perm
      (outline.entries.map language.identityOf ++
        (outline.packages.filter language.hasPackageFile).map fun package =>
          (package, "__init__" ++ language.fileEnd)) := by
  have splits : ∀ package ∈ outline.packages,
      ((language.filesOf outline package).map GeneratedFile.identity).Perm _ :=
    fun package _ => perm_filesOf haveTexts language package
  have ofEntries : (outline.packages.flatMap fun package =>
      (outline.entries.filter fun entry => entry.package = package).map language.identityOf).Perm
        (outline.entries.map language.identityOf) := by
    rw [← List.map_flatMap]
    exact (List.perm_flatMap_filter (Outline.nodup_packages haveTexts) fun entry occurs =>
      (Outline.mem_packages_iff haveTexts).mpr ⟨entry, occurs, rfl⟩).map _
  have ofPackages : (outline.packages.flatMap fun package =>
      if language.hasPackageFile package then [(package, "__init__" ++ language.fileEnd)] else []) =
        (outline.packages.filter language.hasPackageFile).map fun package =>
          (package, "__init__" ++ language.fileEnd) := by
    induction outline.packages with
    | nil => rfl
    | cons package rest ih => 
      rw [List.flatMap_cons, ih, List.filter_cons]
      split <;> rfl
  rw [files_eq_flatMap, List.map_flatMap, ← ofPackages]
  exact (List.Perm.flatMap_left _ splits).trans
    ((List.flatMap_append_perm _ _ _).symm.trans (ofEntries.append_right _))

/-- A file belongs to the package of a class or enum. -/
theorem exists_entry_of_mem_files (haveTexts : outline.HasPackageTexts) {file : GeneratedFile}
    {language : TargetLanguage} (occurs : file ∈ language.files outline) :
    ∃ entry ∈ outline.entries, entry.package = file.package := by
  have isListed := (language.perm_identities haveTexts).mem_iff.mp (List.mem_map_of_mem occurs)
  rcases List.mem_append.mp isListed with isEntry | isPackage
  · obtain ⟨entry, isEntry, same⟩ := List.mem_map.mp isEntry
    exact ⟨entry, isEntry, (Prod.mk.inj same).1⟩
  · obtain ⟨package, isPackage, same⟩ := List.mem_map.mp isPackage
    rw [← (Prod.mk.inj same).1]
    exact (Outline.mem_packages_iff haveTexts).mp (List.mem_of_mem_filter isPackage)

end TargetLanguage

/-! ## Paths of files -/

/-- A package can be read off its directory. -/
theorem replaceCharacter_cancel {name : String} (noSlash : '/' ∉ name.toList) :
    Text.replaceCharacter '/' '.' (Text.replaceCharacter '.' '/' name) = name := by
  have same : name.toList.map ((fun character => if character = '/' then '.' else character) ∘
      fun character => if character = '.' then '/' else character) = name.toList := by
    refine (List.map_congr_left fun character occurs => ?_).trans (List.map_id _)
    have differs : character ≠ '/' := fun isSlash => noSlash (isSlash ▸ occurs)
    rw [Function.comp_apply, id]
    by_cases isPoint : character = '.' <;> simp [isPoint, differs]
  rw [Text.replaceCharacter, Text.replaceCharacter, String.toList_ofList, List.map_map, same,
    String.ofList_toList]

/-- Different files have different paths. -/
theorem eq_of_unitPath_eq {first second fileName other : String} (noSlash : '/' ∉ fileName.toList)
    (noSlash' : '/' ∉ other.toList) (ofFirst : '/' ∉ first.toList) (ofSecond : '/' ∉ second.toList)
    (samePath : unitPath (.text first) fileName = unitPath (.text second) other) :
    first = second ∧ fileName = other := by
  have slashIn (directory name : String) : '/' ∈ (directory ++ "/" ++ name).toList := by simp
  rw [unitPath_text, unitPath_text] at samePath
  replace samePath := Except.ok.inj samePath
  split at samePath
  · split at samePath
    · exact ⟨by simp [*], samePath⟩
    · exact absurd (samePath ▸ slashIn _ _) noSlash
  · split at samePath
    · exact absurd (samePath ▸ slashIn _ _) noSlash'
    · have samePieces := congrArg (fun path : String => Text.pieces '/' path.toList) samePath
      simp only [String.toList_append, List.append_assoc] at samePieces
      change Text.pieces '/' (_ ++ '/' :: fileName.toList) =
        Text.pieces '/' (_ ++ '/' :: other.toList) at samePieces
      rw [Text.pieces_append_cons, Text.pieces_append_cons, Text.pieces_of_notMem noSlash,
        Text.pieces_of_notMem noSlash'] at samePieces
      obtain ⟨sameDirectory, sameName⟩ := List.append_inj' samePieces rfl
      have sameText := congrArg (Text.joined '/') sameDirectory
      rw [Text.joined_pieces, Text.joined_pieces, String.toList_inj] at sameText
      have samePackage := congrArg (Text.replaceCharacter '/' '.') sameText
      rw [replaceCharacter_cancel ofFirst, replaceCharacter_cancel ofSecond] at samePackage
      exact ⟨samePackage, String.toList_inj.mp (List.singleton_inj.mp sameName)⟩

/-! ## Module names -/

namespace Python

open Naming

variable {name : String}

theorem lower_of_isPlain (isPlain : IsPlain name) :
    (Unicode.lower name).toList = name.toList.map Char.toLower := by
  rw [Unicode.lower, String.toList_ofList, Unicode.lowerFrom_of_ascii isPlain.isAscii]

/-- The letters and digits of a plain name are all in its module name, in small letters. -/
theorem filter_moduleName (isPlain : IsPlain name) :
    (moduleName name).toList.filter Char.isAlphanum =
      (name.toList.filter Char.isAlphanum).map Char.toLower := by
  rw [moduleName]
  split
  · rename_i noWords
    have isFiltered := filter_snakeCase name
    rw [String.isEmpty_iff.mp noWords] at isFiltered
    rw [← isFiltered, lower_of_isPlain isPlain]
    refine List.filter_eq_nil_iff.mpr fun character occurs => ?_
    obtain ⟨original, isOriginal, rfl⟩ := List.mem_map.mp occurs
    have noLetter : original ∉ name.toList.filter Char.isAlphanum := by
      rw [List.map_eq_nil_iff.mp isFiltered.symm]
      exact List.not_mem_nil
    have notAlphanum : ¬original.isAlphanum = true := fun isAlphanum =>
      noLetter (List.mem_filter.mpr ⟨isOriginal, isAlphanum⟩)
    rw [(isPlain original isOriginal).resolve_right notAlphanum]
    decide
  · exact filter_snakeCase name

/-- No class or enum has a module with the name that the module of a package has. -/
theorem moduleName_ne_init (isPlain : IsPlain name) : moduleName name ≠ "__init__" := by
  intro isInit
  have isFiltered := filter_moduleName isPlain
  rw [moduleName] at isInit
  split at isInit
  · rename_i noWords
    have noLetters := filter_snakeCase name
    rw [String.isEmpty_iff.mp noWords] at noLetters
    rw [← noLetters, moduleName, if_pos noWords, isInit] at isFiltered
    exact absurd isFiltered (by decide)
  · exact absurd (isAlphanum_of_head_snakeCase (congrArg String.toList isInit)) (by decide)

/-- Names of letters and digits that lead to the same module differ at most in case. -/
theorem lower_eq_of_moduleName_eq {other : String} (isPlain : IsPlain name)
    (isPlain' : IsPlain other) (noMark : '_' ∉ name.toList) (noMark' : '_' ∉ other.toList)
    (same : moduleName name = moduleName other) : Unicode.lower name = Unicode.lower other := by
  have onlyLetters {name : String} (isPlain : IsPlain name) (noMark : '_' ∉ name.toList) :
      name.toList.filter Char.isAlphanum = name.toList :=
    List.filter_eq_self.mpr fun character occurs =>
      (isPlain character occurs).resolve_left fun isMark => noMark (isMark ▸ occurs)
  have ofName := filter_moduleName isPlain
  have ofOther := filter_moduleName isPlain'
  rw [onlyLetters isPlain noMark] at ofName
  rw [onlyLetters isPlain' noMark', ← same, ofName] at ofOther
  rw [← String.toList_inj, lower_of_isPlain isPlain, lower_of_isPlain isPlain', ofOther]

end Python

/-- Names of letters and digits whose files have the same name differ at most in case. -/
theorem TargetLanguage.lower_eq_of_stemOf_eq {language : TargetLanguage} {name other : String}
    (isPlain : Naming.IsPlain name) (isPlain' : Naming.IsPlain other) (noMark : '_' ∉ name.toList)
    (noMark' : '_' ∉ other.toList) (same : language.stemOf name = language.stemOf other) :
    Unicode.lower name = Unicode.lower other := by
  cases language with
  | python => exact Python.lower_eq_of_moduleName_eq isPlain isPlain' noMark noMark' same
  | csharp => exact congrArg Unicode.lower same

/-! ## Generated code -/

/-- Values are different under one view if all that are the same under it are the same under
another one. -/
theorem List.nodup_map_of_imp {α β γ : Type} {items : List α} {view : α → β} {other : α → γ}
    (distinct : (items.map other).Nodup)
    (same : ∀ item ∈ items, ∀ item' ∈ items, view item = view item' → other item = other item') :
    (items.map view).Nodup := by
  rw [List.Nodup, List.pairwise_map] at distinct ⊢
  exact distinct.imp_of_mem fun occurs occurs' differ isSame =>
    differ (same _ occurs _ occurs' isSame)

namespace GeneratedCode

open Reporting

variable {settings : GenerationSettings} {model : Model} {made : GeneratedCode}
  {channel after : Channel}

/-- The package of a definition is given as a text without slashes. -/
def HasPlainPackage (definition : TypeDefinition) : Prop :=
  ∃ package, definition.package = .text package ∧ '/' ∉ package.toList

/-- The paths of files are all different if their packages and names are. -/
theorem nodup_paths_iff {files : List GeneratedFile}
    (havePackages : ∀ file ∈ files, ∃ package, file.package = .text package ∧
      '/' ∉ package.toList)
    (noSlash : ∀ file ∈ files, '/' ∉ file.fileName.toList) :
    (files.map GeneratedFile.path).Nodup ↔ (files.map GeneratedFile.identity).Nodup := by
  refine ⟨fun distinct => List.nodup_map_of_imp distinct fun file _ other _ same => ?_,
    fun distinct => List.nodup_map_of_imp distinct fun file occurs other occurs' same => ?_⟩
  · obtain ⟨samePackage, sameName⟩ := Prod.mk.inj same
    rw [GeneratedFile.path, GeneratedFile.path, samePackage, sameName]
  · obtain ⟨package, isPackage, ofPackage⟩ := havePackages file occurs
    obtain ⟨package', isPackage', ofPackage'⟩ := havePackages other occurs'
    rw [GeneratedFile.path, GeneratedFile.path, isPackage, isPackage'] at same
    obtain ⟨rfl, sameName⟩ := eq_of_unitPath_eq (noSlash file occurs) (noSlash other occurs')
      ofPackage ofPackage' same
    rw [GeneratedFile.identity, GeneratedFile.identity, isPackage, isPackage', sameName]

theorem nodup_identities_iff {outline : Outline} (haveTexts : outline.HasPackageTexts)
    (names : ∀ entry ∈ outline.entries, Naming.IsPlain entry.name) (language : TargetLanguage) :
    ((language.files outline).map GeneratedFile.identity).Nodup ↔
      (outline.entries.map fun entry => (entry.package, language.stemOf entry.name)).Nodup := by
  have packageFiles : ((outline.packages.filter language.hasPackageFile).map fun package =>
      (package, "__init__" ++ language.fileEnd)).Nodup :=
    ((Outline.nodup_packages haveTexts).filter _).map fun _ _ same => (Prod.mk.inj same).1
  have apart : (outline.entries.map language.identityOf).Disjoint
      ((outline.packages.filter language.hasPackageFile).map fun package =>
        (package, "__init__" ++ language.fileEnd)) := by
    intro identity isEntry isPackage
    obtain ⟨entry, occurs, rfl⟩ := List.mem_map.mp isEntry
    obtain ⟨package, isFile, same⟩ := List.mem_map.mp isPackage
    have sameStem := (String.append_left_inj _).mp (Prod.mk.inj same).2
    cases language with
    | python => exact Python.moduleName_ne_init (names entry occurs) sameStem.symm
    | csharp => exact absurd (List.mem_filter.mp isFile).2 Bool.false_ne_true
  rw [(language.perm_identities haveTexts).nodup_iff, List.nodup_append']
  constructor
  · rintro ⟨distinct, -, -⟩
    refine List.nodup_map_of_imp distinct fun entry _ other _ same => ?_
    obtain ⟨samePackage, sameStem⟩ := Prod.mk.inj same
    rw [TargetLanguage.identityOf, TargetLanguage.identityOf, samePackage, sameStem]
  · intro distinct
    refine ⟨List.nodup_map_of_imp distinct fun entry _ other _ same => ?_, packageFiles, apart⟩
    obtain ⟨samePackage, sameName⟩ := Prod.mk.inj same
    rw [samePackage, (String.append_left_inj _).mp sameName]

/-- The files of an outline have paths, and these are all different if the files of its classes
and enums have different names. -/
theorem nodup_files_iff {outline : Outline}
    (packages : ∀ entry ∈ outline.entries, ∃ package, entry.package = .text package ∧
      '/' ∉ package.toList)
    (names : ∀ entry ∈ outline.entries, Naming.IsPlain entry.name) (language : TargetLanguage) :
    (∀ file ∈ language.files outline, ∃ path, file.path = .ok path) ∧
    (((language.files outline).map GeneratedFile.path).Nodup ↔
      (outline.entries.map fun entry => (entry.package, language.stemOf entry.name)).Nodup) := by
  have packageTexts : outline.HasPackageTexts :=
    fun entry occurs => (packages entry occurs).imp fun _ => And.left
  have ofFiles : ∀ file ∈ language.files outline, ∃ package,
      file.package = .text package ∧ '/' ∉ package.toList := by
    intro file occurs
    obtain ⟨entry, isEntry, isPackage⟩ :=
      TargetLanguage.exists_entry_of_mem_files packageTexts occurs
    exact isPackage ▸ packages entry isEntry
  have noSlash : ∀ file ∈ language.files outline, '/' ∉ file.fileName.toList :=
    fun file occurs => TargetLanguage.noSlash_of_mem_files occurs fun entry isEntry isSlash =>
      absurd (names entry isEntry '/' isSlash) (by decide)
  refine ⟨fun file occurs => ?_, (nodup_paths_iff ofFiles noSlash).trans
    (nodup_identities_iff packageTexts names language)⟩
  obtain ⟨package, isPackage, -⟩ := ofFiles file occurs
  rw [GeneratedFile.path, isPackage, unitPath_text]
  exact ⟨_, rfl⟩

/-- The paths of C# files are all different.  Those of Python files are if and only if no two names
of a package lead to the same module, and names without underscores never do. -/
theorem distinct_paths_of_ofModel
    (makes : (ofModel settings model).onChannel channel = (.ok (some made), after))
    (packages : ∀ definition ∈ model.definitions, HasPlainPackage definition)
    (names : ∀ entry ∈ made.outline.entries, Naming.IsPlain entry.name) :
    (∀ file ∈ made.files, ∃ path, file.path = .ok path) ∧
    (settings.language = .csharp → (made.files.map GeneratedFile.path).Nodup) ∧
    (settings.language = .python → ((made.files.map GeneratedFile.path).Nodup ↔
      (made.outline.entries.map fun entry =>
        (entry.package, Python.moduleName entry.name)).Nodup)) ∧
    ((∀ entry ∈ made.outline.entries, '_' ∉ entry.name.toList) →
      (made.files.map GeneratedFile.path).Nodup) := by
  obtain ⟨outline, assigns, isMade, noError⟩ := exists_of_onChannel_unless makes fun _ _ => rfl
  cases isMade
  dsimp only at names ⊢
  have haveTexts : ∀ definition ∈ model.definitions, definition.HasPackageText :=
    fun definition occurs => (packages definition occurs).imp fun _ => And.left
  obtain ⟨definitions, taken, same, assigned⟩ := assigned_of_outlineOf haveTexts assigns noError
  have ofEntries : ∀ entry ∈ outline.entries, ∃ package, entry.package = .text package ∧
      '/' ∉ package.toList := by
    intro entry occurs
    rw [assigned.packages entry occurs]
    refine packages _ (same.mem_iff.mp ?_)
    rw [← assigned.targets]
    exact List.mem_map_of_mem occurs
  obtain ⟨havePaths, isDistinct⟩ := nodup_files_iff ofEntries names settings.language
  refine ⟨havePaths, fun isCSharp => ?_, fun isPython => ?_, fun noMarks => ?_⟩
  · rw [isDistinct, isCSharp]
    refine List.nodup_map_of_imp assigned.distinct fun entry _ other _ same => ?_
    obtain ⟨samePackage, sameName⟩ := Prod.mk.inj same
    rw [samePackage, show entry.name = other.name from sameName]
  · rw [isDistinct, isPython]
    rfl
  · rw [isDistinct]
    refine List.nodup_map_of_imp assigned.distinct fun entry occurs other occurs' same => ?_
    obtain ⟨samePackage, sameStem⟩ := Prod.mk.inj same
    rw [samePackage, TargetLanguage.lower_eq_of_stemOf_eq (names entry occurs)
      (names other occurs') (noMarks entry occurs) (noMarks other occurs') sameStem]

/-- A model of two classes. -/
def fooAndBar : Model :=
  let named (name : String) : ClassDefinition :=
    { name, package := .text "", base := none, fields := [], description := .null, source := "" }
  { classes := [named "Foo", named "Bar"], enums := [] }

theorem hasPlainPackage_fooAndBar : ∀ definition ∈ fooAndBar.definitions,
    HasPlainPackage definition := by
  intro definition occurs
  have isPackage : definition.package ∈ [Json.text "", .text ""] := List.mem_map_of_mem occurs
  exact ⟨"", by simpa using isPackage, by decide⟩

theorem distinct_paths_fooAndBar : ∃ made after,
    (ofModel {} fooAndBar).onChannel {} = (.ok (some made), after) ∧
      (∀ entry ∈ made.outline.entries, Naming.IsPlain entry.name) ∧
      (made.outline.entries.map fun entry =>
        (entry.package, Python.moduleName entry.name)).Nodup ∧
      (made.files.map GeneratedFile.path).Nodup := by
  have views : ((ofModel {} fooAndBar).onChannel {}).1.toOption.join.map (fun made =>
      (made.outline.entries.map TypeOutline.name, made.outline.entries.map fun entry =>
        (entry.package, Python.moduleName entry.name))) =
      some (["Foo", "Bar"], [(.text "", "foo"), (.text "", "bar")]) := by
    decide +kernel
  obtain ⟨made, after, makes, isSeen⟩ := Reporting.exists_onChannel_eq_some views
  obtain ⟨areNames, areModules⟩ := Prod.mk.inj isSeen
  have names : ∀ entry ∈ made.outline.entries, Naming.IsPlain entry.name := by
    rw [← List.forall_mem_map, areNames]
    exact List.forall_mem_cons.mpr ⟨by decide, List.forall_mem_singleton.mpr (by decide)⟩
  have distinct : (made.outline.entries.map fun entry =>
      (entry.package, Python.moduleName entry.name)).Nodup := by
    rw [areModules]
    decide
  have result := distinct_paths_of_ofModel makes hasPlainPackage_fooAndBar names
  exact ⟨made, after, makes, names, distinct, (result.2.2.1 rfl).mpr distinct⟩

/-- Two names of a package that differ in more than case lead to the same Python file. -/
theorem same_paths_fooAndBar : ∃ made after,
    (ofModel { replacements := [(.text "Foo", .text "A_B"), (.text "Bar", .text "aB")] }
      fooAndBar).onChannel {} = (.ok (some made), after) ∧
      (∀ definition ∈ fooAndBar.definitions, HasPlainPackage definition) ∧
      (∀ entry ∈ made.outline.entries, Naming.IsPlain entry.name) ∧
      made.files.map GeneratedFile.path = [.ok "a_b.py", .ok "a_b.py"] ∧
      ¬(made.files.map GeneratedFile.path).Nodup := by
  have views : ((ofModel { replacements := [(.text "Foo", .text "A_B"), (.text "Bar", .text "aB")] }
      fooAndBar).onChannel {}).1.toOption.join.map (fun made =>
        (made.outline.entries.map TypeOutline.name,
          made.files.map fun file => file.path.toOption)) =
      some (["A_B", "aB"], [some "a_b.py", some "a_b.py"]) := by
    decide +kernel
  obtain ⟨made, after, makes, isSeen⟩ := Reporting.exists_onChannel_eq_some views
  obtain ⟨areNames, arePaths⟩ := Prod.mk.inj isSeen
  have names : ∀ entry ∈ made.outline.entries, Naming.IsPlain entry.name := by
    rw [← List.forall_mem_map, areNames]
    exact List.forall_mem_cons.mpr ⟨by decide, List.forall_mem_singleton.mpr (by decide)⟩
  have samePaths : made.files.map GeneratedFile.path = [.ok "a_b.py", .ok "a_b.py"] := by
    obtain ⟨first, rest, areFiles, isFirst, ofRest⟩ := List.map_eq_cons_iff.mp arePaths
    obtain ⟨second, others, areRest, isSecond, noOthers⟩ := List.map_eq_cons_iff.mp ofRest
    rw [areFiles, areRest, List.map_eq_nil_iff.mp noOthers]
    rw [List.map_cons, List.map_cons, Except.eq_ok_of_toOption isFirst,
      Except.eq_ok_of_toOption isSecond]
    rfl
  refine ⟨made, after, makes, hasPlainPackage_fooAndBar, names, samePaths, ?_⟩
  rw [samePaths]
  exact fun distinct => (List.nodup_cons.mp distinct).1 List.mem_cons_self

end GeneratedCode

end Typeloom
