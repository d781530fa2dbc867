import Typeloom.Generate.Code
import Typeloom.Proofs.Files.Places
import Typeloom.Proofs.Naming.Words

/-!
# Paths of generated files

The path of a generated file ends with its file name, in front of which stand the pieces of the
name of its package.  No piece of a package leads back, since it holds no point.
-/

namespace Typeloom

namespace Text

variable {mark : Char} {text tail piece : List Char}

/-- What stands behind the last mark of a text goes on in the last of its pieces. -/
theorem exists_pieces_append (text : List Char) (notIn : mark ∉ tail) :
    ∃ init last, pieces mark (text ++ tail) = init ++ [last ++ tail] := by
  induction text with
  | nil => exact ⟨[], [], by simpa using pieces_of_notMem notIn⟩
  | cons character rest ih =>
      obtain ⟨init, last, isPieces⟩ := ih
      rw [List.cons_append, pieces, isPieces]
      by_cases same : character = mark
      · exact ⟨[] :: init, last, by simp [same]⟩
      · rw [if_neg same]
        cases init with
        | nil => exact ⟨[], character :: last, rfl⟩
        | cons piece more => exact ⟨(character :: piece) :: more, last, rfl⟩

/-- The pieces of a text consist of its characters, the mark apart. -/
theorem mem_of_mem_pieces {character : Char} (isPiece : piece ∈ pieces mark text)
    (occurs : character ∈ piece) : character ∈ text ∧ character ≠ mark := by
  induction text generalizing piece with
  | nil => simp_all [pieces]
  | cons first rest ih =>
      rw [pieces] at isPiece
      split at isPiece
      · rcases List.mem_cons.mp isPiece with rfl | isLater
        · cases occurs
        · exact (ih isLater occurs).imp_left (List.mem_cons_of_mem _)
      · rename_i differs
        split at isPiece
        · rename_i isNil
          exact absurd isNil (pieces_ne_nil mark rest)
        · rename_i next more isCons
          rw [isCons] at ih
          rcases List.mem_cons.mp isPiece with rfl | isLater
          · rcases List.mem_cons.mp occurs with rfl | inNext
            · exact ⟨List.mem_cons_self, differs⟩
            · exact (ih List.mem_cons_self inNext).imp_left (List.mem_cons_of_mem _)
          · exact (ih (List.mem_cons_of_mem _ isLater) occurs).imp_left (List.mem_cons_of_mem _)

end Text

/-! ## File names -/

namespace FileSystem

variable {system : FileSystem} {place : List String} {path : Path}

/-- A path leads to a place of the name with which it ends. -/
theorem getLast?_of_locate_join {base : Path} {init : List String} {last : String}
    (isParts : path.parts = init ++ [last]) (isName : IsName last)
    (leads : system.locate (base.join path) = .ok place) : place.getLast? = some last := by
  obtain ⟨-, follows⟩ := locate_eq_ok_iff.mp leads
  obtain ⟨front, isJoined⟩ : ∃ front, (base.join path).parts = front ++ [last] := by
    unfold Path.join
    split
    · exact ⟨base.parts ++ init, by simp [isParts]⟩
    · exact ⟨init, isParts⟩
  rw [isJoined] at follows
  obtain ⟨between, -, onward⟩ := follow_append_eq_ok_iff.mp follows
  rw [follow_names (by simpa using isName) onward, List.getLast?_append]
  rfl

end FileSystem

/-- With what the file names of a language end. -/
def TargetLanguage.fileEnd : TargetLanguage → String
  | .python => ".py"
  | .csharp => ".cs"

/-- What the file of a class or enum is called, without the end. -/
def TargetLanguage.stemOf : TargetLanguage → String → String
  | .python => Python.moduleName
  | .csharp => id

/-- Files are called after a class or an enum, or they are those of a package. -/
theorem TargetLanguage.fileName_of_mem_files {language : TargetLanguage} {outline : Outline}
    {file : GeneratedFile} (occurs : file ∈ language.files outline) :
    (∃ entry ∈ outline.entries, file.fileName = language.stemOf entry.name ++ language.fileEnd) ∨
      file.fileName = "__init__" ++ language.fileEnd := by
  have isEntry {test : TypeOutline × Nat → Bool} {entry : TypeOutline × Nat}
      (isNumbered : entry ∈ outline.entries.zipIdx.filter test) : entry.1 ∈ outline.entries :=
    List.fst_mem_of_mem_zipIdx (List.mem_of_mem_filter isNumbered)
  cases language with
  | python =>
      obtain ⟨package, -, occurs⟩ := List.mem_flatMap.mp occurs
      simp only [Python.filesOf, List.mem_append, List.mem_map] at occurs
      rcases occurs with (⟨entry, isNumbered, rfl⟩ | ⟨entry, isNumbered, rfl⟩) | isPackage
      · exact Or.inl ⟨entry.1, isEntry isNumbered, rfl⟩
      · exact Or.inl ⟨entry.1, isEntry isNumbered, rfl⟩
      · split at isPackage
        · rw [List.mem_singleton] at isPackage
          exact Or.inr (by rw [isPackage]; rfl)
        · cases isPackage
  | csharp =>
      obtain ⟨package, -, occurs⟩ := List.mem_flatMap.mp occurs
      obtain ⟨entry, isNumbered, rfl⟩ := List.mem_map.mp occurs
      rcases List.mem_append.mp isNumbered with isClass | isEnum
      · exact Or.inl ⟨entry.1, isEntry isClass, rfl⟩
      · exact Or.inl ⟨entry.1, isEntry isEnum, rfl⟩

theorem TargetLanguage.exists_stem {language : TargetLanguage} {outline : Outline}
    {file : GeneratedFile} (occurs : file ∈ language.files outline) :
    ∃ stem, file.fileName = stem ++ language.fileEnd := by
  rcases fileName_of_mem_files occurs with ⟨entry, -, isCalled⟩ | isPackage
  · exact ⟨_, isCalled⟩
  · exact ⟨_, isPackage⟩

theorem TargetLanguage.noSlash_fileEnd (language : TargetLanguage) :
    '/' ∉ language.fileEnd.toList := by
  cases language <;> decide

/-- File names have no slash unless the names of classes and enums have one. -/
theorem TargetLanguage.noSlash_of_mem_files {language : TargetLanguage} {outline : Outline}
    {file : GeneratedFile} (occurs : file ∈ language.files outline)
    (noSlash : ∀ entry ∈ outline.entries, '/' ∉ entry.name.toList) :
    '/' ∉ file.fileName.toList := by
  have noneInStem {name : String} (noSlash : '/' ∉ name.toList) :
      '/' ∉ (language.stemOf name).toList := by
    cases language with
    | csharp => exact noSlash
    | python =>
        rw [stemOf, Python.moduleName]
        split
        · rw [Unicode.lower, String.toList_ofList]
          exact mt Unicode.slash_mem_of_mem_lowerFrom noSlash
        · exact fun inStem => absurd (Naming.of_mem_snakeCase inStem) (by decide)
  have noneInEnd := language.noSlash_fileEnd
  rcases fileName_of_mem_files occurs with ⟨entry, isEntry, isCalled⟩ | isPackage
  · simp [isCalled, noneInStem (noSlash entry isEntry), noneInEnd]
  · simp [isPackage, noneInEnd]

theorem TargetLanguage.isName_append_fileEnd (language : TargetLanguage) (stem : String) :
    FileSystem.IsName (stem ++ language.fileEnd) := by
  have isLong : 2 < (stem ++ language.fileEnd).length := by
    rw [String.length_append]
    exact Nat.lt_of_lt_of_le (by cases language <;> decide) (Nat.le_add_left _ _)
  refine ⟨?_, ?_, ?_⟩ <;> · intro same; rw [same] at isLong; exact absurd isLong (by decide)

theorem TargetLanguage.isName_of_mem_files {language : TargetLanguage} {outline : Outline}
    {file : GeneratedFile} (occurs : file ∈ language.files outline) :
    FileSystem.IsName file.fileName := by
  obtain ⟨stem, isCalled⟩ := exists_stem occurs
  exact isCalled ▸ language.isName_append_fileEnd stem

variable {package : Json} {language : TargetLanguage} {stem fileName path : String}

/-- The path of a file ends with a part that ends like the name of the file. -/
theorem exists_last_part (hasPath : unitPath package (stem ++ language.fileEnd) = .ok path) :
    ∃ init last, (Path.parse path).parts = init ++ [last ++ language.fileEnd] := by
  obtain ⟨front, isPath⟩ : ∃ front : String, path = front ++ language.fileEnd := by
    unfold unitPath at hasPath
    split at hasPath
    · obtain ⟨name, -, rest⟩ := exists_of_bind_eq_ok hasPath
      cases rest
      exact ⟨_, String.append_assoc.symm⟩
    · cases hasPath
      exact ⟨stem, rfl⟩
  obtain ⟨init, last, isPieces⟩ := Text.exists_pieces_append front.toList language.noSlash_fileEnd
  have isPart : Path.isPart (last ++ language.fileEnd.toList) = true := by
    cases language <;> cases last <;> simp [Path.isPart, TargetLanguage.fileEnd]
  refine ⟨(init.filter Path.isPart).map String.ofList, String.ofList last, ?_⟩
  have split : Text.pieces '/' path.toList = init ++ [last ++ language.fileEnd.toList] := by
    rw [isPath, String.toList_append, isPieces]
  rw [Path.parse]
  dsimp only
  rw [split, List.filter_append, List.filter_cons_of_pos isPart]
  simp

/-! ## Where files go -/

theorem Path.leadingSlashes_eq_zero {text : List Char} (noSlash : text.head? ≠ some '/') :
    Path.leadingSlashes text = 0 := by
  unfold Path.leadingSlashes
  split <;> simp_all

theorem Path.isPart_toList {part : String} (isName : FileSystem.IsName part) :
    Path.isPart part.toList = true := by
  obtain ⟨notEmpty, notCurrent, -⟩ := isName
  have noDot : part.toList ≠ ['.'] := fun same => notCurrent (String.toList_injective same)
  simp [Path.isPart, notEmpty, noDot]

/-- The parts of a text without points are names. -/
theorem Path.isName_of_mem_parse {text part : String} (noPoint : '.' ∉ text.toList)
    (isPart : part ∈ (Path.parse text).parts) : FileSystem.IsName part := by
  obtain ⟨piece, isPiece, rfl⟩ := List.mem_map.mp isPart
  obtain ⟨isPiece, counts⟩ := List.mem_filter.mp isPiece
  have noneInPiece : '.' ∉ piece := fun occurs =>
    noPoint (Text.mem_of_mem_pieces isPiece occurs).1
  have notEmpty : piece ≠ [] := by
    rintro rfl
    exact absurd counts (by decide)
  have isPiece {name : String} (same : String.ofList piece = name) : piece = name.toList := by
    rw [← same, String.toList_ofList]
  refine ⟨fun same => notEmpty (isPiece same), fun same => ?_, fun same => ?_⟩
  · exact noneInPiece (isPiece same ▸ by decide)
  · exact noneInPiece (isPiece same ▸ by decide)

/-- A text behind a slash is the last part of a path. -/
theorem Path.parse_append {before name : String} (noSlash : '/' ∉ name.toList)
    (isName : FileSystem.IsName name) :
    (Path.parse (before ++ "/" ++ name)).parts = (Path.parse before).parts ++ [name] := by
  rw [Path.parse, Path.parse, Text.pieces_path before noSlash, List.filter_append,
    List.filter_cons_of_pos (Path.isPart_toList isName)]
  simp

theorem Path.parse_name {name : String} (noSlash : '/' ∉ name.toList)
    (isName : FileSystem.IsName name) : Path.parse name = { slashes := 0, parts := [name] } := by
  have noMark : name.toList.head? ≠ some '/' := fun isFirst =>
    noSlash (List.mem_of_head? isFirst)
  rw [Path.parse, Path.leadingSlashes_eq_zero noMark, Text.pieces_of_notMem noSlash,
    List.filter_cons_of_pos (Path.isPart_toList isName)]
  simp

/-- Whether the name of a package begins with a point or a slash, so that the paths of its files
begin at the root. -/
def IsRooted (package : String) : Prop :=
  ∃ mark ∈ ['.', '/'], package.toList.head? = some mark

theorem unitPath_text (name fileName : String) :
    unitPath (.text name) fileName =
      .ok (if name = "" then fileName
        else Text.replaceCharacter '.' '/' name ++ "/" ++ fileName) := by
  by_cases isEmpty : name = ""
  · simp [unitPath, Json.isTruthy, isEmpty]
  · simp [unitPath, Json.isTruthy, isEmpty, Json.textOf, bind, Except.bind, pure, Except.pure]

theorem leadingSlashes_eq_zero_or_isRooted {name : String} (rest : List Char)
    (nonempty : name ≠ "") :
    Path.leadingSlashes ((Text.replaceCharacter '.' '/' name).toList ++ rest) = 0 ∨
      IsRooted name := by
  obtain ⟨first, others, isFirst⟩ :=
    List.exists_cons_of_ne_nil (mt String.toList_eq_nil_iff.mp nonempty)
  by_cases isMark : first ∈ ['.', '/']
  · exact Or.inr ⟨first, isMark, by rw [isFirst]; rfl⟩
  · refine Or.inl (Path.leadingSlashes_eq_zero ?_)
    simp_all [Text.replaceCharacter]

/-- The path of a file consists of names and ends with the name of the file.  It is relative
unless the name of the package begins at the root. -/
theorem parts_of_unitPath (hasPath : unitPath package fileName = .ok path)
    (noSlash : '/' ∉ fileName.toList) (isName : FileSystem.IsName fileName) :
    (∃ names, (Path.parse path).parts = names ++ [fileName]) ∧
      (∀ part ∈ (Path.parse path).parts, FileSystem.IsName part) ∧
      ((Path.parse path).slashes = 0 ∨ ∃ name, package = .text name ∧ IsRooted name) := by
  unfold unitPath at hasPath
  split at hasPath
  · rename_i isTruthy
    obtain ⟨name, isText, rest⟩ := exists_of_bind_eq_ok hasPath
    obtain rfl : package = .text name := by
      unfold Json.textOf at isText
      split at isText <;> cases isText
      rfl
    cases rest
    have noPoint : '.' ∉ (Text.replaceCharacter '.' '/' name).toList := by
      rw [Text.replaceCharacter, String.toList_ofList, List.mem_map]
      rintro ⟨character, -, isPoint⟩
      split at isPoint
      · exact absurd isPoint (by decide)
      · contradiction
    have isParts := @Path.parse_append (Text.replaceCharacter '.' '/' name) _ noSlash isName
    refine ⟨⟨_, isParts⟩, fun part occurs => ?_, ?_⟩
    · rw [isParts] at occurs
      rcases List.mem_append.mp occurs with isBefore | isLast
      · exact Path.isName_of_mem_parse noPoint isBefore
      · rwa [List.mem_singleton.mp isLast]
    · have nonempty : name ≠ "" := by
        rintro rfl
        exact absurd isTruthy (by decide)
      have isRelative := leadingSlashes_eq_zero_or_isRooted ('/' :: fileName.toList) nonempty
      refine isRelative.imp (fun noMark => ?_) fun rooted => ⟨name, rfl, rooted⟩
      rwa [Path.parse, String.toList_append, String.toList_append, List.append_assoc]
  · cases hasPath
    rw [Path.parse_name noSlash isName]
    exact ⟨⟨[], rfl⟩, by simpa using isName, Or.inl rfl⟩

/-- A file goes below the base, or below the root if the name of its package begins there. -/
theorem place_of_unitPath {system : FileSystem} {target : Path} {base place : List String}
    (hasPath : unitPath package fileName = .ok path) (noSlash : '/' ∉ fileName.toList)
    (isName : FileSystem.IsName fileName) (isBase : system.locate target = .ok base)
    (leads : system.locate (target.join (Path.parse path)) = .ok place) :
    place = base ++ (Path.parse path).parts ∨
      place = (Path.parse path).parts ∧ ∃ name, package = .text name ∧ IsRooted name := by
  obtain ⟨-, areNames, relative | rooted⟩ := parts_of_unitPath hasPath noSlash isName
  · exact Or.inl (FileSystem.locate_join relative areNames isBase leads)
  · by_cases relative : (Path.parse path).slashes = 0
    · exact Or.inl (FileSystem.locate_join relative areNames isBase leads)
    · exact Or.inr ⟨FileSystem.locate_join_rooted relative areNames leads, rooted⟩

/-! ## Paths of dotted packages -/

/-- Whether the name of a package is empty or has segments between its points, and can stand in a
path. -/
def IsDotted (package : String) : Prop :=
  package = "" ∨ (∀ segment ∈ Text.pieces '.' package.toList, segment ≠ []) ∧
    '/' ∉ package.toList ∧ Char.ofNat 0 ∉ package.toList

/-- Whether the package and the name of a file can stand in a path. -/
structure GeneratedFile.IsPlain (file : GeneratedFile) : Prop where
  package : ∃ package, file.package = .text package ∧ IsDotted package
  noSlash : '/' ∉ file.fileName.toList
  noNull : Char.ofNat 0 ∉ file.fileName.toList

theorem Text.pieces_replace {mark new : Char} {text : List Char} (notIn : new ∉ text) :
    Text.pieces new (text.map fun character => if character = mark then new else character) =
      Text.pieces mark text := by
  induction text with
  | nil => rfl
  | cons character rest ih =>
      obtain ⟨differs, notInRest⟩ := not_or.mp (mt List.mem_cons.mpr notIn)
      rw [List.map_cons, Text.pieces, Text.pieces, ih notInRest]
      by_cases isMark : character = mark
      · simp [isMark]
      · simp [isMark, Ne.symm differs]

theorem not_isRooted_of_isDotted {package : String} (isDotted : IsDotted package) :
    ¬IsRooted package := by
  rintro ⟨mark, isMark, begins⟩
  rcases isDotted with rfl | ⟨segments, noSlash, -⟩
  · cases begins
  · obtain ⟨rest, isCons⟩ := List.head?_eq_some_iff.mp begins
    rcases List.mem_cons.mp isMark with rfl | isSlash
    · refine segments [] ?_ rfl
      rw [isCons, Text.pieces, if_pos rfl]
      exact List.mem_cons_self
    · rw [List.mem_singleton.mp isSlash] at isCons
      exact noSlash (isCons ▸ List.mem_cons_self)

/-- A path can be read off its parts. -/
theorem joined_parts {path : String}
    (areParts : ∀ piece ∈ Text.pieces '/' path.toList, Path.isPart piece = true) :
    Text.joined '/' ((Path.parse path).parts.map String.toList) = path.toList := by
  rw [Path.parse, List.filter_eq_self.mpr areParts, List.map_map]
  have same : String.toList ∘ String.ofList = id := funext fun text => String.toList_ofList
  rw [same, List.map_id, Text.joined_pieces]

namespace GeneratedFile

variable {file other : GeneratedFile}

theorem IsPlain.isPart (isPlain : file.IsPlain) (isName : FileSystem.IsName file.fileName)
    (hasPath : file.path = .ok path) :
    ∀ piece ∈ Text.pieces '/' path.toList, Path.isPart piece = true := by
  have ofName := Path.isPart_toList isName
  obtain ⟨package, isPackage, isDotted⟩ := isPlain.package
  rw [GeneratedFile.path, isPackage, unitPath_text] at hasPath
  obtain rfl := Except.ok.inj hasPath
  split
  · rw [Text.pieces_of_notMem isPlain.noSlash]
    simpa using ofName
  · rename_i nonempty
    obtain ⟨segments, noSlash, -⟩ := isDotted.resolve_left nonempty
    intro piece isPiece
    rw [Text.pieces_path _ isPlain.noSlash, Text.replaceCharacter, String.toList_ofList,
      Text.pieces_replace noSlash, List.mem_append, List.mem_singleton] at isPiece
    rcases isPiece with isSegment | rfl
    · have notEmpty := segments piece isSegment
      have notPoint : piece ≠ ['.'] := by
        rintro rfl
        exact (Text.mem_of_mem_pieces isSegment List.mem_cons_self).2 rfl
      simp [Path.isPart, notEmpty, notPoint]
    · exact ofName

/-- A plain file has a relative path of names without null characters. -/
theorem IsPlain.exists_path (isPlain : file.IsPlain) (isName : FileSystem.IsName file.fileName) :
    ∃ path, file.path = .ok path ∧ (Path.parse path).slashes = 0 ∧
      (∀ part ∈ (Path.parse path).parts, FileSystem.IsName part) ∧ Char.ofNat 0 ∉ path.toList := by
  obtain ⟨package, isPackage, isDotted⟩ := isPlain.package
  have hasPath : file.path = _ := (congrArg (unitPath · file.fileName) isPackage).trans
    (unitPath_text package file.fileName)
  obtain ⟨-, areNames, isRelative⟩ := parts_of_unitPath hasPath isPlain.noSlash isName
  refine ⟨_, hasPath, isRelative.resolve_right ?_, areNames, ?_⟩
  · rintro ⟨name, isText, isRooted⟩
    rw [isPackage] at isText
    cases isText
    exact not_isRooted_of_isDotted isDotted isRooted
  · split
    · exact isPlain.noNull
    · rename_i nonempty
      obtain ⟨-, -, noNull⟩ := isDotted.resolve_left nonempty
      have noneReplaced : Char.ofNat 0 ∉ (Text.replaceCharacter '.' '/' package).toList := by
        rw [Text.replaceCharacter, String.toList_ofList, List.mem_map]
        rintro ⟨character, occurs, isNull⟩
        split at isNull
        · exact absurd isNull (by decide)
        · exact noNull (isNull ▸ occurs)
      simpa [noneReplaced] using isPlain.noNull

/-- Plain files with the same parts have the same path. -/
theorem IsPlain.path_eq_of_parts_eq (isPlain : file.IsPlain) (isPlain' : other.IsPlain)
    (isName : FileSystem.IsName file.fileName) (isName' : FileSystem.IsName other.fileName)
    {path path' : String} (hasPath : file.path = .ok path) (hasPath' : other.path = .ok path')
    (same : (Path.parse path).parts = (Path.parse path').parts) : path = path' := by
  have joined := joined_parts (isPlain.isPart isName hasPath)
  rw [same, joined_parts (isPlain'.isPart isName' hasPath')] at joined
  exact (String.toList_inj.mp joined).symm

end GeneratedFile

/-- A text without null characters can stand in a path. -/
theorem Path.isUnusable_join {target : Path} {text : String} (usable : target.isUnusable = false)
    (noNull : Char.ofNat 0 ∉ text.toList) : (target.join (Path.parse text)).isUnusable = false := by
  have usableParts : (Path.parse text).isUnusable = false := by
    rw [Path.isUnusable, List.any_eq_false]
    intro part occurs isNull
    obtain ⟨piece, isPiece, rfl⟩ := List.mem_map.mp occurs
    rw [Path.isUnusableText, String.toList_ofList, List.contains_iff_mem] at isNull
    exact noNull (Text.mem_of_mem_pieces (List.mem_of_mem_filter isPiece) isNull).1
  unfold Path.join
  split
  · rw [Path.isUnusable, List.any_append, Bool.or_eq_false_iff]
    exact ⟨usable, usableParts⟩
  · exact usableParts

theorem Text.before_of_notMem {mark : Char} {text : String} (notIn : mark ∉ text.toList) :
    Text.before mark text = text := by
  rw [Text.before, Text.cut_of_notMem notIn, String.ofList_toList]

end Typeloom
