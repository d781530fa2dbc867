import Typeloom.Files.Change
import Typeloom.Proofs.Failing
import Typeloom.Proofs.Files.Places

/-!
# Effects on the file system

Making directories leaves all files as they are.  A file that is replaced or written changes at
one place only, the one to which its path leads, and if that fails no file changes.
-/

namespace Typeloom

namespace Filing

variable {α β : Type} {system later : FileSystem} {path : Path} {content : List UInt8}
  {readOnly : Bool}

theorem run_ofLookup_bind (result : Except SystemError α) (next : α → Filing β)
    (system : FileSystem) :
    (ofLookup result >>= next).run system =
      match result with
      | .ok value => (next value).run system
      | .error error => (.error (.system error), system) := by
  cases result <;> rfl

/-- A computation makes directories at most: it leaves the files as they are. -/
def KeepsFiles (action : Filing α) : Prop :=
  ∀ system, (action.run system).2.files = system.files ∧
    system.Persists (action.run system).2

theorem keepsFiles_pure (value : α) : KeepsFiles (pure value) :=
  fun system => ⟨rfl, .refl system⟩

theorem keepsFiles_throw (fault : Fault) : KeepsFiles (throw fault : Filing α) :=
  fun system => ⟨rfl, .refl system⟩

theorem keepsFiles_get : KeepsFiles (get : Filing FileSystem) :=
  fun system => ⟨rfl, .refl system⟩

theorem keepsFiles_ofLookup (result : Except SystemError α) : KeepsFiles (ofLookup result) := by
  cases result with
  | ok value => exact keepsFiles_pure value
  | error error => exact keepsFiles_throw _

theorem KeepsFiles.bind {action : Filing α} {next : α → Filing β} (keeps : KeepsFiles action)
    (keepsNext : ∀ value, KeepsFiles (next value)) : KeepsFiles (action >>= next) := by
  intro system
  obtain ⟨sameFiles, persists⟩ := keeps system
  rw [run_bind]
  rcases ran : action.run system with ⟨fault | value, between⟩
  · rw [ran] at sameFiles persists
    exact ⟨sameFiles, persists⟩
  · rw [ran] at sameFiles persists
    obtain ⟨sameThen, persistsThen⟩ := keepsNext value between
    exact ⟨sameThen.trans sameFiles, persists.trans persistsThen⟩

theorem KeepsFiles.tryCatch {action : Filing α} {handle : Fault → Filing α}
    (keeps : KeepsFiles action) (keepsHandled : ∀ fault, KeepsFiles (handle fault)) :
    KeepsFiles (tryCatch action handle) := by
  intro system
  obtain ⟨sameFiles, persists⟩ := keeps system
  rw [run_tryCatch]
  rcases ran : action.run system with ⟨fault | value, between⟩
  · rw [ran] at sameFiles persists
    obtain ⟨sameThen, persistsThen⟩ := keepsHandled fault between
    exact ⟨sameThen.trans sameFiles, persists.trans persistsThen⟩
  · rw [ran] at sameFiles persists
    exact ⟨sameFiles, persists⟩

theorem keepsFiles_requireUsable (path : Path) : KeepsFiles (requireUsable path) := by
  unfold requireUsable
  split
  · exact keepsFiles_throw _
  · exact keepsFiles_pure ()

/-! ## Directories -/

theorem keepsFiles_makeDirectory (path : Path) : KeepsFiles (makeDirectory path) := by
  refine (keepsFiles_requireUsable path).bind fun _ system => ?_
  rw [run_get_bind, run_ofLookup_bind]
  cases system.locate path with
  | error error => exact ⟨rfl, .refl system⟩
  | ok place =>
      dsimp only
      cases found : system.entryAt? place with
      | some entry => exact keepsFiles_throw _ system
      | none => exact ⟨rfl, FileSystem.persists_putDirectory found⟩

theorem keepsFiles_allowDirectory (path : Path) (fault : Fault) :
    KeepsFiles (allowDirectory path fault) := by
  refine keepsFiles_get.bind fun system => (keepsFiles_ofLookup _).bind fun isDirectory => ?_
  cases isDirectory with
  | true => exact keepsFiles_pure ()
  | false => exact keepsFiles_throw fault

theorem keepsFiles_makeDirectories (slashes : Nat) (parts : List String) :
    KeepsFiles (makeDirectories slashes parts) := by
  induction parts with
  | nil => exact keepsFiles_pure ()
  | cons part upper ih =>
      refine (keepsFiles_makeDirectory _).tryCatch fun fault => ?_
      split
      · refine ih.bind fun _ => (keepsFiles_makeDirectory _).tryCatch fun fault => ?_
        split
        · exact keepsFiles_throw _
        · exact keepsFiles_allowDirectory _ _
      · exact keepsFiles_allowDirectory _ _
      · exact keepsFiles_throw _

/-! ## Files -/

/-- What becomes of a file system when the file at a path gets some content: nothing changes but
that directories come into being, or there is the file at the place to which the path leads. -/
inductive PutsFile (path : Path) (file : File) (system : FileSystem) :
    Except Fault Unit × FileSystem → Prop where
  | refused {fault : Fault} {later : FileSystem} (files_eq : later.files = system.files)
      (persists : system.Persists later) : PutsFile path file system (.error fault, later)
  | put {place : List String} {later : FileSystem} (leads : later.locate path = .ok place)
      (files_eq : later.files = Table.set place file system.files)
      (persists : system.Persists later) : PutsFile path file system (.ok (), later)

variable {file : File} {between : FileSystem}

theorem PutsFile.persists {outcome : Except Fault Unit × FileSystem}
    (puts : PutsFile path file system outcome) : system.Persists outcome.2 := by
  cases puts with
  | refused files_eq persists => exact persists
  | put leads files_eq persists => exact persists

/-- A place is as it was, or it is the one where the file was put. -/
theorem PutsFile.unchanged_or_put (puts : PutsFile path file system (.ok (), later))
    (place : List String) :
    Table.get? later.files place = Table.get? system.files place ∨
      later.locate path = .ok place ∧ Table.get? later.files place = some file := by
  cases puts with
  | @put reached _ leads files_eq persists =>
      rw [files_eq]
      by_cases same : place = reached
      · subst same
        exact Or.inr ⟨leads, Table.get?_set_same _ _ _⟩
      · exact Or.inl (Table.get?_set_other _ _ same)

theorem putsFile_bind {action : Filing α} {next : α → Filing Unit} (keeps : KeepsFiles action)
    (files_eq : between.files = system.files) (persists : system.Persists between)
    (puts : ∀ value further, further.files = system.files → system.Persists further →
      PutsFile path file system ((next value).run further)) :
    PutsFile path file system ((action >>= next).run between) := by
  obtain ⟨sameFiles, persistsThen⟩ := keeps between
  rw [run_bind]
  split
  · rename_i value further ran
    rw [ran] at sameFiles persistsThen
    exact puts value further (sameFiles.trans files_eq) (persists.trans persistsThen)
  · rename_i fault further ran
    rw [ran] at sameFiles persistsThen
    exact .refused (sameFiles.trans files_eq) (persists.trans persistsThen)

theorem putsFile_putFile {place : List String} (files_eq : between.files = system.files)
    (persists : system.Persists between) (leads : between.locate path = .ok place) :
    PutsFile path file system (.ok (), between.putFile place file) := by
  have persistsThen : between.Persists (between.putFile place file) :=
    FileSystem.persists_putFile place file
  refine .put (persistsThen.locate leads) ?_ (persists.trans persistsThen)
  rw [FileSystem.putFile, files_eq]

/-- A file that is replaced is there as a whole, or nothing has become of it. -/
theorem putsFile_replaceFile (path : Path) (content : List UInt8) (readOnly : Bool)
    (system : FileSystem) :
    PutsFile path { content := .bytes content, readOnly } system
      ((replaceFile path content readOnly).run system) := by
  refine putsFile_bind (keepsFiles_requireUsable _) rfl (.refl system)
    fun _ _ sameFiles persists => ?_
  refine putsFile_bind (keepsFiles_makeDirectories _ _) sameFiles persists
    fun _ _ sameFiles persists => ?_
  refine putsFile_bind (keepsFiles_requireUsable _) sameFiles persists
    fun _ between sameFiles persists => ?_
  rw [run_get_bind, run_ofLookup_bind]
  split
  · rename_i leads
    split
    · exact .refused sameFiles persists
    · exact putsFile_putFile sameFiles persists leads
  · exact .refused sameFiles persists

theorem putsFile_writeFile (path : Path) (content : FileContent) (system : FileSystem) :
    ∃ readOnly, PutsFile path { content, readOnly } system
      ((writeFile path content).run system) := by
  unfold writeFile requireUsable
  split
  · exact ⟨false, .refused rfl (.refl system)⟩
  · rw [pure_bind, run_get_bind, run_ofLookup_bind]
    split
    · rename_i leads
      split
      · exact ⟨false, .refused rfl (.refl system)⟩
      · exact ⟨_, putsFile_putFile rfl (.refl system) leads⟩
      · exact ⟨_, putsFile_putFile rfl (.refl system) leads⟩
    · exact ⟨false, .refused rfl (.refl system)⟩

/-- A file that is written is there. -/
theorem hasFile_writeFile {content : FileContent}
    (writes : (writeFile path content).run system = (.ok (), later)) :
    ∃ place, later.locate path = .ok place ∧ later.HasFile place := by
  unfold writeFile requireUsable at writes
  split at writes
  · cases writes
  · rw [pure_bind, run_get_bind, run_ofLookup_bind] at writes
    split at writes
    · rename_i place leads
      have put (file : File) (notDirectory : system.entryAt? place ≠ some .directory) :
          ∃ reached, (system.putFile place file).locate path = .ok reached ∧
            (system.putFile place file).HasFile reached :=
        ⟨place, (FileSystem.persists_putFile place file).locate leads,
          FileSystem.hasFile_putFile notDirectory file⟩
      split at writes
      · cases writes
      · rename_i isFile
        cases writes
        exact put _ (by simp [isFile])
      · rename_i isFree
        cases writes
        exact put _ (by simp [isFree])
    · cases writes

/-! ## Refusals -/

/-- A computation fails only if the system refuses something. -/
def OnlyRefuses (action : Filing α) : Prop :=
  ∀ system fault later, action.run system = (.error fault, later) → ∃ error, fault = .system error

theorem onlyRefuses_pure (value : α) : OnlyRefuses (pure value) := by
  intro system fault later fails
  cases fails

theorem onlyRefuses_throw (error : SystemError) :
    OnlyRefuses (throw (.system error) : Filing α) := by
  intro system fault later fails
  cases fails
  exact ⟨error, rfl⟩

theorem onlyRefuses_ofLookup (result : Except SystemError α) : OnlyRefuses (ofLookup result) := by
  cases result with
  | ok value => exact onlyRefuses_pure value
  | error error => exact onlyRefuses_throw error

theorem OnlyRefuses.bind {action : Filing α} {next : α → Filing β} (refuses : OnlyRefuses action)
    (refusesNext : ∀ value, OnlyRefuses (next value)) : OnlyRefuses (action >>= next) := by
  intro system fault later fails
  rw [run_bind] at fails
  split at fails
  · exact refusesNext _ _ _ _ fails
  · rename_i ran
    cases fails
    exact refuses _ _ _ ran

theorem onlyRefuses_get_bind {next : FileSystem → Filing α}
    (refuses : ∀ system, OnlyRefuses (next system)) : OnlyRefuses (get >>= next) :=
  fun system => refuses system system

theorem OnlyRefuses.tryCatch {action : Filing α} {handle : Fault → Filing α}
    (refuses : OnlyRefuses action)
    (refusesHandled : ∀ error, OnlyRefuses (handle (.system error))) :
    OnlyRefuses (tryCatch action handle) := by
  intro system fault later fails
  rw [run_tryCatch] at fails
  split at fails
  · cases fails
  · rename_i ran
    obtain ⟨error, rfl⟩ := refuses _ _ _ ran
    exact refusesHandled error _ _ _ fails

theorem requireUsable_eq_pure (usable : path.isUnusable = false) :
    requireUsable path = pure () := by
  rw [requireUsable, usable]
  rfl

theorem onlyRefuses_makeDirectory (usable : path.isUnusable = false) :
    OnlyRefuses (makeDirectory path) := by
  rw [makeDirectory, requireUsable_eq_pure usable, pure_bind]
  refine onlyRefuses_get_bind fun system => (onlyRefuses_ofLookup _).bind fun place => ?_
  split
  · exact onlyRefuses_throw _
  · exact fun _ _ _ fails => nomatch fails

theorem onlyRefuses_allowDirectory (path : Path) (error : SystemError) :
    OnlyRefuses (allowDirectory path (.system error)) := by
  refine onlyRefuses_get_bind fun system => (onlyRefuses_ofLookup _).bind fun isDirectory => ?_
  cases isDirectory with
  | true => exact onlyRefuses_pure ()
  | false => exact onlyRefuses_throw error

theorem onlyRefuses_makeDirectories {slashes : Nat} {parts : List String}
    (usable : parts.any Path.isUnusableText = false) :
    OnlyRefuses (makeDirectories slashes parts) := by
  induction parts with
  | nil => exact onlyRefuses_pure ()
  | cons part upper ih =>
      have usablePath : (Path.mk slashes (part :: upper).reverse).isUnusable = false := by
        rw [Path.isUnusable, List.any_reverse]
        exact usable
      have usableUpper : upper.any Path.isUnusableText = false := by
        rw [List.any_cons, Bool.or_eq_false_iff] at usable
        exact usable.2
      refine (onlyRefuses_makeDirectory usablePath).tryCatch fun error => ?_
      split
      · refine (ih usableUpper).bind fun _ =>
          (onlyRefuses_makeDirectory usablePath).tryCatch fun error => ?_
        split
        · exact onlyRefuses_throw _
        · exact onlyRefuses_allowDirectory _ _
      · rename_i isSystem
        cases isSystem
        exact onlyRefuses_allowDirectory _ _
      · rename_i notSystem
        exact absurd rfl (notSystem error)

theorem onlyRefuses_replaceFile (usable : path.isUnusable = false) (content : List UInt8)
    (readOnly : Bool) : OnlyRefuses (replaceFile path content readOnly) := by
  have usableParent : path.parent.isUnusable = false := by
    rw [Path.isUnusable, List.any_eq_false] at usable ⊢
    exact fun part occurs => usable part (List.dropLast_subset _ occurs)
  rw [replaceFile, requireUsable_eq_pure usableParent, requireUsable_eq_pure usable, pure_bind]
  refine (onlyRefuses_makeDirectories ?_).bind fun _ => ?_
  · rw [List.any_reverse]
    exact usableParent
  · rw [pure_bind]
    refine onlyRefuses_get_bind fun system => (onlyRefuses_ofLookup _).bind fun place => ?_
    split
    · exact onlyRefuses_throw _
    · exact fun _ _ _ fails => nomatch fails

theorem onlyRefuses_writeFile (usable : path.isUnusable = false) (content : FileContent) :
    OnlyRefuses (writeFile path content) := by
  rw [writeFile, requireUsable_eq_pure usable, pure_bind]
  refine onlyRefuses_get_bind fun system => (onlyRefuses_ofLookup _).bind fun place => ?_
  split
  · exact onlyRefuses_throw _
  · exact fun _ _ _ fails => nomatch fails
  · exact fun _ _ _ fails => nomatch fails

end Filing

end Typeloom
