import Typeloom.Proofs.Generate.Assignment

/-!
# The files of generated Python code

Every class and enum of an outline has a module in its package, and every named package has a
module of its own.  There are no other files.
-/

namespace Typeloom

theorem Json.same_text_iff {value : Json} {text : String} :
    Json.same (.text text) value = true ↔ value = .text text := by
  cases value with
  | text other => simp [Json.same, eq_comm (a := text)]
  | _ => simp [Json.same]

theorem Json.equal_text_iff {value : Json} {text : String} :
    (Json.text text).equal value = true ↔ value = .text text := by
  rw [Json.equal, Json.same_text_iff]
  simp

namespace Outline

/-- A text occurs in a list of different values if it occurs in the list they are taken from. -/
theorem mem_foldl_distinct {values kept : List Json}
    (areTexts : ∀ value ∈ values, ∃ text, value = .text text) {value : Json} :
    value ∈ values.foldl (fun kept value => if kept.any (Json.same value) then kept
      else kept ++ [value]) kept ↔ value ∈ kept ∨ value ∈ values := by
  induction values generalizing kept with
  | nil => simp
  | cons first rest ih =>
      obtain ⟨⟨text, rfl⟩, restTexts⟩ := List.forall_mem_cons.mp areTexts
      rw [List.foldl_cons, ih restTexts]
      have known : kept.any (Json.same (.text text)) = true ↔ .text text ∈ kept := by
        simp [List.any_eq_true, Json.same_text_iff]
      by_cases occurs : Json.text text ∈ kept
      · have old : value = .text text → value ∈ kept := fun same => same ▸ occurs
        rw [if_pos (known.mpr occurs), List.mem_cons, ← or_assoc, or_iff_left_of_imp old]
      · rw [if_neg (mt known.mp occurs)]
        simp [or_assoc]

theorem nodup_foldl_distinct {values kept : List Json}
    (areTexts : ∀ value ∈ values, ∃ text, value = .text text) (distinct : kept.Nodup) :
    (values.foldl (fun kept value => if kept.any (Json.same value) then kept else kept ++ [value])
      kept).Nodup := by
  induction values generalizing kept with
  | nil => exact distinct
  | cons first rest ih =>
      obtain ⟨⟨text, rfl⟩, restTexts⟩ := List.forall_mem_cons.mp areTexts
      rw [List.foldl_cons]
      split
      · exact ih restTexts distinct
      · rename_i isNew
        refine ih restTexts ?_
        rw [List.nodup_append_comm, List.singleton_append, List.nodup_cons]
        exact ⟨fun occurs => isNew (List.any_eq_true.mpr ⟨_, occurs, Json.same_text_iff.mpr rfl⟩),
          distinct⟩

/-- Whether the packages of all entries are given as texts. -/
def HasPackageTexts (outline : Outline) : Prop :=
  ∀ entry ∈ outline.entries, ∃ package, entry.package = .text package

theorem Assigns.hasPackageTexts {definitions : List TypeDefinition} {outline : Outline}
    (assigns : outline.Assigns definitions)
    (haveTexts : ∀ definition ∈ definitions, definition.HasPackageText) :
    outline.HasPackageTexts := by
  intro entry isEntry
  rw [assigns.packages entry isEntry]
  exact haveTexts _ (assigns.targets.mem_iff.mp (List.mem_map_of_mem isEntry))

theorem mem_packages_iff {outline : Outline} (haveTexts : outline.HasPackageTexts)
    {package : Json} :
    package ∈ outline.packages ↔ ∃ entry ∈ outline.entries, entry.package = package := by
  have partition (entry : TypeOutline) :
      entry ∈ outline.classes ++ outline.enums ↔ entry ∈ outline.entries := by
    cases isClass : entry.isClass <;> simp [classes, enums, isClass]
  rw [packages, distinctValues, mem_foldl_distinct]
  · simp only [List.not_mem_nil, false_or, List.mem_map, partition]
  · intro value occurs
    obtain ⟨entry, isEntry, rfl⟩ := List.mem_map.mp occurs
    exact haveTexts entry ((partition entry).mp isEntry)

theorem nodup_packages {outline : Outline} (haveTexts : outline.HasPackageTexts) :
    outline.packages.Nodup := by
  refine nodup_foldl_distinct (fun value occurs => ?_) List.nodup_nil
  obtain ⟨entry, isEntry, rfl⟩ := List.mem_map.mp occurs
  refine haveTexts entry ?_
  rcases List.mem_append.mp isEntry with isClass | isEnum
  · exact List.mem_of_mem_filter isClass
  · exact List.mem_of_mem_filter isEnum

end Outline

namespace Python

variable {outline : Outline}

/-- The module of a class or enum. -/
def fileOf (entry : TypeOutline) (index : Nat) : GeneratedFile :=
  { package := entry.package, fileName := moduleName entry.name ++ ".py", content := .entry index }

/-- The module of a package. -/
def packageFile (package : Json) : GeneratedFile :=
  { package, fileName := "__init__.py", content := .package }

theorem mem_numberedEntries_iff (haveTexts : outline.HasPackageTexts) {package : Json}
    {classes : Bool} {entry : TypeOutline} {index : Nat} :
    (entry, index) ∈ numberedEntries outline package classes ↔
      outline.entries[index]? = some entry ∧ entry.isClass = classes ∧ entry.package = package := by
  rw [numberedEntries, List.mem_filter, List.mem_zipIdx_iff_getElem?, Bool.and_eq_true,
    beq_iff_eq]
  refine and_congr_right fun atIndex => and_congr_right fun _ => ?_
  obtain ⟨text, isText⟩ := haveTexts entry (List.mem_of_getElem? atIndex)
  rw [isText, Json.equal_text_iff, eq_comm]

/-- The files of a package are the modules of its classes and enums, and its own module if it has
a name. -/
theorem mem_filesOf_iff (haveTexts : outline.HasPackageTexts) {package : Json}
    {file : GeneratedFile} :
    file ∈ filesOf outline package ↔
      (∃ entry index, outline.entries[index]? = some entry ∧ entry.package = package ∧
        file = fileOf entry index) ∨
      package.isTruthy = true ∧ file = packageFile package := by
  unfold filesOf
  simp only [List.mem_append, List.mem_map]
  refine or_congr ⟨?ofNumbered, ?numbered⟩ ?ofPackage
  case ofNumbered =>
    have ofType {classes : Bool} : (∃ pair ∈ numberedEntries outline package classes,
        { package, fileName := moduleName pair.1.name ++ ".py", content := .entry pair.2 } = file) →
        ∃ entry index, outline.entries[index]? = some entry ∧ entry.package = package ∧
          file = fileOf entry index := by
      rintro ⟨pair, isNumbered, rfl⟩
      obtain ⟨atIndex, -, same⟩ := (mem_numberedEntries_iff haveTexts).mp isNumbered
      exact ⟨pair.1, pair.2, atIndex, same, by rw [fileOf, same]⟩
    exact fun numbered => numbered.elim ofType ofType
  case numbered =>
    rintro ⟨entry, index, atIndex, rfl, rfl⟩
    have isNumbered : (entry, index) ∈ numberedEntries outline entry.package entry.isClass :=
      (mem_numberedEntries_iff haveTexts).mpr ⟨atIndex, rfl, rfl⟩
    cases isClass : entry.isClass with
    | true => exact Or.inl ⟨(entry, index), isClass ▸ isNumbered, rfl⟩
    | false => exact Or.inr ⟨(entry, index), isClass ▸ isNumbered, rfl⟩
  case ofPackage => by_cases named : package.isTruthy = true <;> simp [named, packageFile]

/-- The files are the modules of all classes and enums and those of all named packages. -/
theorem mem_files_iff (haveTexts : outline.HasPackageTexts) {file : GeneratedFile} :
    file ∈ files outline ↔
      (∃ entry index, outline.entries[index]? = some entry ∧ file = fileOf entry index) ∨
      ∃ entry ∈ outline.entries, entry.package.isTruthy = true ∧
        file = packageFile entry.package := by
  simp only [files, List.mem_flatMap, Outline.mem_packages_iff haveTexts, mem_filesOf_iff haveTexts]
  constructor
  · rintro ⟨_, ⟨first, isFirst, rfl⟩, ⟨entry, index, atIndex, -, isFile⟩ | ⟨named, isFile⟩⟩
    · exact Or.inl ⟨entry, index, atIndex, isFile⟩
    · exact Or.inr ⟨first, isFirst, named, isFile⟩
  · rintro (⟨entry, index, atIndex, isFile⟩ | ⟨entry, isEntry, named, isFile⟩)
    · exact ⟨entry.package, ⟨entry, List.mem_of_getElem? atIndex, rfl⟩,
        Or.inl ⟨entry, index, atIndex, rfl, isFile⟩⟩
    · exact ⟨entry.package, ⟨entry, isEntry, rfl⟩, Or.inr ⟨named, isFile⟩⟩

/-- A file stays one when the entries change in nothing but how they are generated. -/
theorem mem_files_of_identities {first second : Outline} (firstTexts : first.HasPackageTexts)
    (secondTexts : second.HasPackageTexts)
    (same : first.entries.map TypeOutline.identity = second.entries.map TypeOutline.identity)
    {file : GeneratedFile} (occurs : file ∈ files first) : file ∈ files second := by
  have counterpart {index : Nat} {entry : TypeOutline}
      (atIndex : first.entries[index]? = some entry) :
      ∃ other, second.entries[index]? = some other ∧ other.name = entry.name ∧
        other.package = entry.package := by
    have atBoth := congrArg (·[index]?) same
    simp only [List.getElem?_map, atIndex, Option.map_some] at atBoth
    obtain ⟨other, atOther, equal⟩ := Option.map_eq_some_iff.mp atBoth.symm
    simp only [TypeOutline.identity, Prod.mk.injEq] at equal
    exact ⟨other, atOther, equal.2⟩
  refine (mem_files_iff secondTexts).mpr ?_
  rcases (mem_files_iff firstTexts).mp occurs with
    ⟨entry, index, atIndex, rfl⟩ | ⟨entry, isEntry, named, rfl⟩
  · obtain ⟨other, atOther, isName, isPackage⟩ := counterpart atIndex
    exact Or.inl ⟨other, index, atOther, by rw [fileOf, fileOf, isName, isPackage]⟩
  · obtain ⟨index, atIndex⟩ := List.mem_iff_getElem?.mp isEntry
    obtain ⟨other, atOther, -, isPackage⟩ := counterpart atIndex
    exact Or.inr ⟨other, List.mem_of_getElem? atOther, isPackage ▸ named, by rw [isPackage]⟩

end Python

end Typeloom
