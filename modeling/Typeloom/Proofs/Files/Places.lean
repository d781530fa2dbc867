import Mathlib.Data.List.Basic
import Typeloom.Files.FileSystem

/-!
# Places of paths

A path leads to a place through directories.  It leads there as long as directories stay
directories, and parts that name something lead deeper and never back.
-/

namespace Typeloom

namespace FileSystem

variable {system middle later : FileSystem} {place reached : List String} {parts : List String}
  {path : Path} {file : File}

/-- A part of a path that names something in a directory, and neither the directory itself nor the
one above it. -/
def IsName (part : String) : Prop :=
  part ≠ "" ∧ part ≠ "." ∧ part ≠ ".."

instance : DecidablePred IsName :=
  fun part => inferInstanceAs (Decidable (part ≠ "" ∧ part ≠ "." ∧ part ≠ ".."))

/-- The place to which a part leads from the place of a directory. -/
def enter (place : List String) (part : String) : List String :=
  if part = "." || part.isEmpty then place
  else if part = ".." then place.dropLast
  else place ++ [part]

theorem enter_of_isName {part : String} (isName : IsName part) (place : List String) :
    enter place part = place ++ [part] := by
  obtain ⟨notEmpty, notCurrent, notUpper⟩ := isName
  simp [enter, notEmpty, notCurrent, notUpper]

theorem follow_cons (system : FileSystem) (place : List String) (part : String)
    (rest : List String) :
    system.follow place (part :: rest) =
      match system.entryAt? place with
      | none => .error .missing
      | some (.file _) => .error .notDirectory
      | some .directory =>
          if longestName < part.utf8ByteSize then .error .nameTooLong
          else system.follow (enter place part) rest := by
  rw [follow, enter]
  cases system.entryAt? place with
  | none => rfl
  | some entry =>
      cases entry with
      | file file => rfl
      | directory =>
          dsimp only
          split_ifs <;> rfl

/-- What a path leads to goes on from a directory. -/
theorem follow_cons_eq_ok_iff {part : String} :
    system.follow place (part :: parts) = .ok reached ↔
      system.entryAt? place = some .directory ∧ part.utf8ByteSize ≤ longestName ∧
        system.follow (enter place part) parts = .ok reached := by
  rw [follow_cons]
  cases system.entryAt? place with
  | none => simp
  | some entry =>
      cases entry with
      | file file => simp
      | directory =>
          by_cases isLong : longestName < part.utf8ByteSize
          · simp [isLong, Nat.not_le_of_lt isLong]
          · simp [isLong, Nat.le_of_not_lt isLong]

theorem follow_append_eq_ok_iff {first rest : List String} :
    system.follow place (first ++ rest) = .ok reached ↔
      ∃ between, system.follow place first = .ok between ∧
        system.follow between rest = .ok reached := by
  induction first generalizing place with
  | nil => simp [follow]
  | cons part parts ih =>
      simp only [List.cons_append, follow_cons_eq_ok_iff, ih]
      constructor
      · rintro ⟨isDirectory, isShort, between, toBetween, onward⟩
        exact ⟨between, ⟨isDirectory, isShort, toBetween⟩, onward⟩
      · rintro ⟨between, ⟨isDirectory, isShort, toBetween⟩, onward⟩
        exact ⟨isDirectory, isShort, between, toBetween, onward⟩

/-- Names lead from a directory to what is below it under these names. -/
theorem follow_names (areNames : ∀ part ∈ parts, IsName part)
    (follows : system.follow place parts = .ok reached) : reached = place ++ parts := by
  induction parts generalizing place with
  | nil =>
      cases follows
      exact (List.append_nil _).symm
  | cons part rest ih =>
      obtain ⟨isName, restNames⟩ := List.forall_mem_cons.mp areNames
      obtain ⟨-, -, onward⟩ := follow_cons_eq_ok_iff.mp follows
      rw [ih restNames onward, enter_of_isName isName, List.append_assoc, List.singleton_append]

/-- What is a directory stays one, and so does what is a file. -/
structure Persists (system later : FileSystem) : Prop where
  current_eq : later.current = system.current
  directory : ∀ place, system.entryAt? place = some .directory →
    later.entryAt? place = some .directory
  file : ∀ place file, system.entryAt? place = some (.file file) →
    ∃ other, later.entryAt? place = some (.file other)

theorem Persists.refl (system : FileSystem) : system.Persists system :=
  ⟨rfl, fun _ => id, fun _ file isFile => ⟨file, isFile⟩⟩

theorem Persists.trans (first : system.Persists middle) (second : middle.Persists later) :
    system.Persists later where
  current_eq := second.current_eq.trans first.current_eq
  directory place isDirectory := second.directory place (first.directory place isDirectory)
  file place file isFile := by
    obtain ⟨other, isOther⟩ := first.file place file isFile
    exact second.file place other isOther

/-- Parts lead to the same place as long as directories stay directories. -/
theorem Persists.follow (persists : system.Persists later)
    (follows : system.follow place parts = .ok reached) :
    later.follow place parts = .ok reached := by
  induction parts generalizing place with
  | nil => exact follows
  | cons part rest ih =>
      obtain ⟨isDirectory, isShort, onward⟩ := follow_cons_eq_ok_iff.mp follows
      exact follow_cons_eq_ok_iff.mpr ⟨persists.directory place isDirectory, isShort, ih onward⟩

theorem locate_eq_ok_iff {place : List String} :
    system.locate path = .ok place ↔
      path.write.utf8ByteSize ≤ longestPath ∧
        system.follow (system.startOf path) path.parts = .ok place := by
  unfold locate
  by_cases isLong : longestPath < path.write.utf8ByteSize
  · simp [isLong, Nat.not_le_of_lt isLong]
  · cases system.follow (system.startOf path) path.parts <;>
      simp [isLong, Nat.le_of_not_lt isLong, Except.mapError]

theorem Persists.locate (persists : system.Persists later)
    (leads : system.locate path = .ok place) : later.locate path = .ok place := by
  obtain ⟨isShort, follows⟩ := locate_eq_ok_iff.mp leads
  have sameStart : later.startOf path = system.startOf path := by
    simp only [startOf, persists.current_eq]
  exact locate_eq_ok_iff.mpr ⟨isShort, sameStart ▸ persists.follow follows⟩

theorem exists_place_of_entry {found : FileEntry} (isEntry : system.entry path = .ok found) :
    ∃ place, system.locate path = .ok place ∧ system.entryAt? place = some found := by
  obtain ⟨place, leads, isFound⟩ := exists_of_bind_eq_ok isEntry
  split at isFound
  · rename_i isThere
    cases isFound
    exact ⟨place, leads, isThere⟩
  · cases isFound

theorem exists_place_of_isDirectory (isThere : system.isDirectory path = .ok true) :
    path.isUnusable = false ∧
      ∃ place, system.locate path = .ok place ∧ system.entryAt? place = some .directory := by
  unfold isDirectory at isThere
  split at isThere
  · cases isThere
  · rename_i usable
    refine ⟨by simpa using usable, ?_⟩
    obtain ⟨found, looksUp, isFound⟩ := exists_of_bind_eq_ok isThere
    replace isFound := Except.ok.inj isFound
    split at isFound
    · unfold lookUp at looksUp
      split at looksUp <;> cases looksUp
      rename_i isEntry
      exact exists_place_of_entry isEntry
    · cases isFound

/-- A relative path of names leads from the place of a directory to a place below it. -/
theorem locate_join (relative : path.slashes = 0) (areNames : ∀ part ∈ path.parts, IsName part)
    {base : Path} {below : List String} (isBase : system.locate base = .ok place)
    (leads : system.locate (base.join path) = .ok below) : below = place ++ path.parts := by
  obtain ⟨-, followsBase⟩ := locate_eq_ok_iff.mp isBase
  obtain ⟨-, follows⟩ := locate_eq_ok_iff.mp leads
  rw [Path.join, if_pos relative] at follows
  have isThrough : system.follow (system.startOf base) (base.parts ++ path.parts) = .ok below :=
    follows
  obtain ⟨between, toBetween, onward⟩ := follow_append_eq_ok_iff.mp isThrough
  obtain rfl := Except.ok.inj (followsBase.symm.trans toBetween)
  exact follow_names areNames onward

/-- An absolute path of names leads to a place below the root. -/
theorem locate_join_rooted (rooted : path.slashes ≠ 0)
    (areNames : ∀ part ∈ path.parts, IsName part) {base : Path}
    (leads : system.locate (base.join path) = .ok place) : place = path.parts := by
  obtain ⟨-, follows⟩ := locate_eq_ok_iff.mp leads
  rw [Path.join, if_neg rooted, startOf, if_neg rooted] at follows
  exact follow_names areNames follows

/-! ## Putting files and directories -/

theorem entryAt?_eq_directory_iff :
    system.entryAt? place = some .directory ↔ place = [] ∨ place ∈ system.directories := by
  unfold entryAt?
  split
  · rename_i found
    simpa using found
  · rename_i notFound
    simpa using notFound

theorem entryAt?_eq_file_iff :
    system.entryAt? place = some (.file file) ↔
      place ≠ [] ∧ place ∉ system.directories ∧ Table.get? system.files place = some file := by
  unfold entryAt?
  split
  · rename_i found
    have isThere : place = [] ∨ place ∈ system.directories := by simpa using found
    simp only [Option.some.injEq, reduceCtorEq, false_iff]
    rintro ⟨notRoot, notDirectory, -⟩
    exact isThere.elim notRoot notDirectory
  · rename_i notFound
    have notThere : ¬place = [] ∧ place ∉ system.directories := by simpa using notFound
    simp [notThere]

/-- Whether there is a file at a place. -/
def HasFile (system : FileSystem) (place : List String) : Prop :=
  ∃ file, system.entryAt? place = some (.file file)

/-- No file comes into being where the files stay the same. -/
theorem Persists.hasFile_iff (persists : system.Persists later)
    (same : Table.get? later.files place = Table.get? system.files place) :
    later.HasFile place ↔ system.HasFile place := by
  constructor
  · rintro ⟨file, isFile⟩
    obtain ⟨notRoot, -, holds⟩ := entryAt?_eq_file_iff.mp isFile
    refine ⟨file, entryAt?_eq_file_iff.mpr ⟨notRoot, fun isDirectory => ?_, same ▸ holds⟩⟩
    have stays := persists.directory place (entryAt?_eq_directory_iff.mpr (Or.inr isDirectory))
    rw [isFile] at stays
    cases stays
  · rintro ⟨file, isFile⟩
    exact persists.file place file isFile

theorem hasFile_putFile (notDirectory : system.entryAt? place ≠ some .directory) (file : File) :
    (system.putFile place file).HasFile place := by
  obtain ⟨notRoot, notListed⟩ := not_or.mp (mt entryAt?_eq_directory_iff.mpr notDirectory)
  exact ⟨file, entryAt?_eq_file_iff.mpr ⟨notRoot, notListed, Table.get?_set_same _ _ _⟩⟩

theorem persists_putDirectory (isFree : system.entryAt? place = none) :
    system.Persists (system.putDirectory place) where
  current_eq := rfl
  directory other isDirectory := by
    rw [entryAt?_eq_directory_iff] at isDirectory ⊢
    exact isDirectory.imp_right (List.mem_append_left _)
  file other file isFile := by
    refine ⟨file, ?_⟩
    have differs : other ≠ place := by
      rintro rfl
      rw [isFree] at isFile
      cases isFile
    rw [entryAt?_eq_file_iff] at isFile ⊢
    obtain ⟨notRoot, notDirectory, isFile⟩ := isFile
    refine ⟨notRoot, ?_, isFile⟩
    simpa [putDirectory, differs] using notDirectory

theorem persists_putFile (place : List String) (file : File) :
    system.Persists (system.putFile place file) where
  current_eq := rfl
  directory other isDirectory := by
    rw [entryAt?_eq_directory_iff] at isDirectory ⊢
    exact isDirectory
  file other found isFile := by
    obtain ⟨notRoot, notDirectory, isFile⟩ := entryAt?_eq_file_iff.mp isFile
    by_cases same : other = place
    · exact ⟨file, entryAt?_eq_file_iff.mpr
        ⟨notRoot, notDirectory, same ▸ Table.get?_set_same _ _ _⟩⟩
    · exact ⟨found, entryAt?_eq_file_iff.mpr
        ⟨notRoot, notDirectory, (Table.get?_set_other _ _ same).trans isFile⟩⟩

end FileSystem

end Typeloom
