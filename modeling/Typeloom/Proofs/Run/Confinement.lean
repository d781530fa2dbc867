import Typeloom.Proofs.Generate.Assignment
import Typeloom.Proofs.Model.TypeNames
import Typeloom.Proofs.Run.WholeFiles

/-!
# Where a run writes

A run changes files below the target directory only, except for the files of packages whose names
begin with a point or a slash.  Their paths begin at the root, and the target directory has no
influence on where they go.
-/

namespace Typeloom

open Reporting

/-! ## Names without slashes -/

/-- The generated names that are put for names of the model hold no slash. -/
def Replacements.NoSlashes (replacements : Replacements) : Prop :=
  ∀ pair ∈ replacements, ∀ text, pair.2 = .text text → '/' ∉ text.toList

theorem Naming.IsTypeName.noSlash {name : String} (isTypeName : IsTypeName name) :
    '/' ∉ name.toList :=
  fun occurs => absurd (isTypeName.isAlphanum _ occurs) (by decide)

theorem Replacements.NoSlashes.noSlash_of_nameFor {replacements : Replacements}
    (noSlashes : replacements.NoSlashes) {name generated : String}
    (isTypeName : Naming.IsTypeName name)
    (isNamed : (replacements.nameFor name).textOf = .ok generated) : '/' ∉ generated.toList := by
  have isText : replacements.nameFor name = .text generated := by
    unfold Json.textOf at isNamed
    split at isNamed <;> cases isNamed
    assumption
  unfold nameFor at isText
  split at isText
  · rename_i pair found
    exact noSlashes pair (List.mem_of_find?_eq_some found) generated isText
  · cases isText
    exact isTypeName.noSlash

namespace Compilation

variable {options : Options} {code : GeneratedCode} {model : Model}

theorem Produces.isTypeName (produces : Produces options code model) :
    ∀ definition ∈ model.definitions, Naming.IsTypeName definition.name := by
  obtain ⟨source, channel, after, loads⟩ := produces.loads
  obtain ⟨library, _, asked, result, -, -, analyzed, rfl, -⟩ :=
    Loading.exists_analysis_of_loadModel loads
  exact Analysis.isTypeName_of_analyze analyzed

/-- The names of files hold no slash. -/
theorem Produces.noSlash (produces : Produces options code model)
    (noSlashes : options.replacements.NoSlashes) {file : GeneratedFile}
    (occurs : file ∈ code.files) : '/' ∉ file.fileName.toList := by
  obtain ⟨made, _, _, makes, sameFiles⟩ := produces.generates
  obtain ⟨outline, assigns, isMade, -⟩ := exists_of_onChannel_unless makes fun _ _ => rfl
  cases isMade
  rw [sameFiles] at occurs
  refine TargetLanguage.noSlash_of_mem_files occurs fun entry isEntry => ?_
  obtain ⟨isDefinition, isNamed⟩ := GeneratedCode.namedAfter_of_outlineOf assigns entry isEntry
  exact noSlashes.noSlash_of_nameFor (produces.isTypeName _ isDefinition) isNamed

end Compilation

/-! ## Places of files -/

/-- The place of a file of a package whose name begins at the root. -/
def GeneratedCode.PutsAtRoot (code : GeneratedCode) (place : List String) : Prop :=
  ∃ file ∈ code.files, ∃ package path, file.package = .text package ∧ IsRooted package ∧
    file.path = .ok path ∧ place = (Path.parse path).parts

namespace Publishing

variable {options : Options} {code : GeneratedCode} {model : Model} {system later : FileSystem}
  {base place : List String}

theorem place_of_file (produces : Compilation.Produces options code model)
    (noSlashes : options.replacements.NoSlashes) {file : GeneratedFile} (occurs : file ∈ code.files)
    {path : String} (hasPath : file.path = .ok path)
    (isBase : later.locate options.target = .ok base)
    (leads : later.locate (options.target.join (Path.parse path)) = .ok place) :
    (base <+: place ∧ base ≠ place) ∨ code.PutsAtRoot place := by
  have isName : FileSystem.IsName file.fileName := by
    obtain ⟨outline, areFiles⟩ := produces.exists_files
    exact TargetLanguage.isName_of_mem_files (areFiles ▸ occurs)
  have noSlash := produces.noSlash noSlashes occurs
  rcases place_of_unitPath hasPath noSlash isName isBase leads with
    isBelow | ⟨isRoot, name, isText, rooted⟩
  · obtain ⟨⟨names, isParts⟩, -, -⟩ := parts_of_unitPath hasPath noSlash isName
    rw [isBelow, isParts]
    exact Or.inl ⟨List.prefix_append _ _, by simp⟩
  · exact Or.inr ⟨file, occurs, name, path, isText, rooted, hasPath, isRoot⟩

end Publishing

namespace Program

/-- A run changes files below the target directory, and those of packages whose names begin at the
root. -/
theorem run_writes_below_target {arguments : List String} {options : Options} {site : Site}
    (parses : Options.parse .program site.system arguments = .ok (.options options))
    (isCode : options.mode = .code) (noSlashes : options.replacements.NoSlashes)
    (remote : Table String (List UInt8)) :
    ∃ base, site.system.locate options.target = .ok base ∧ ∀ place,
      Table.get? (run arguments remote site).2.system.files place =
        Table.get? site.system.files place ∨
      (base <+: place ∧ base ≠ place) ∨
      ∃ code, ((prepare arguments site.system remote).onChannel site.channel).1 =
        .ok (some (options, .code code)) ∧ code.PutsAtRoot place := by
  obtain ⟨-, base, isBase, -⟩ := FileSystem.exists_place_of_isDirectory
    ((Options.settled_of_parse parses).target rfl isCode)
  refine ⟨base, isBase, fun place => ?_⟩
  rw [run_eq]
  match prepares : (prepare arguments site.system remote).onChannel site.channel with
  | (.error .cancelled, channel) => exact Or.inl rfl
  | (.error (.fault fault), channel) => exact Or.inl rfl
  | (.ok none, channel) => exact Or.inl rfl
  | (.ok (some (found, .nothing)), channel) => exact Or.inl rfl
  | (.ok (some (found, .text pieces)), channel) =>
      refine Or.inl ?_
      have unchanged := files_of_publish_text found pieces { site with channel }
      rw [conclude, unchanged]
  | (.ok (some (found, .code code)), channel) =>
      obtain ⟨parsesFound, _, compiles⟩ := exists_of_prepare prepares
      obtain rfl : options = found := by
        rw [parses] at parsesFound
        cases parsesFound
        rfl
      obtain ⟨model, produces⟩ := exists_produces_of_compileAs compiles
      obtain ⟨result, after, publishes, persists, leaves⟩ :=
        Publishing.run_publish_code isCode code { site with channel }
      have isBaseThen := persists.locate isBase
      rw [conclude, publishes]
      rcases leaves place with (unchanged | ⟨texts, -, planned, isPlanned, holds⟩) |
        ⟨hadWarning, isMarker⟩
      · exact Or.inl unchanged
      · obtain ⟨file, occurs, rfl⟩ := List.mem_map.mp isPlanned
        obtain ⟨path, hasPath, leads⟩ := holds.exists_path
        exact Or.inr ((Publishing.place_of_file produces noSlashes occurs hasPath isBaseThen
          leads).imp_right fun atRoot => ⟨code, rfl, atRoot⟩)
      · rw [Publishing.place_of_marker isBaseThen isMarker]
        exact Or.inr (Or.inl ⟨List.prefix_append _ _, by simp⟩)

/-- A document with an enum in a package whose name begins with a point. -/
def rootedEnum : String :=
  "\x7b\"x-package\": \".tmp\", " ++
    "\"definitions\": \x7b\"A\": \x7b\"enum\": [\"a\"]\x7d\x7d\x7d"

def rootedEnumMembers : Json.Members :=
  [("x-package", .text ".tmp"),
    ("definitions", .object [("A", .object [("enum", .array [.text "a"])])])]

theorem parse_rootedEnum :
    Options.parse .program (systemWith rootedEnum) headlessOptions.arguments =
      .ok (.options headlessOptions) :=
  Options.parse_eq_of_agrees (by decide +kernel)

/-- On this document a run changes nothing but what the theorem allows. -/
theorem run_writes_below_target_rootedEnum :
    headlessOptions.replacements.NoSlashes ∧
    ∃ base, (systemWith rootedEnum).locate headlessOptions.target = .ok base ∧ ∀ place,
      let after := (run headlessOptions.arguments [] { system := systemWith rootedEnum }).2
      Table.get? after.system.files place = Table.get? (systemWith rootedEnum).files place ∨
      (base <+: place ∧ base ≠ place) ∨
      ∃ code, ((prepare headlessOptions.arguments (systemWith rootedEnum) []).onChannel {}).1 =
        .ok (some (headlessOptions, .code code)) ∧ code.PutsAtRoot place :=
  have noSlashes : headlessOptions.replacements.NoSlashes := fun _ occurs => nomatch occurs
  ⟨noSlashes, @run_writes_below_target headlessOptions.arguments headlessOptions
    { system := systemWith rootedEnum } parse_rootedEnum rfl noSlashes []⟩

/-- The file of the enum is not below the target directory. -/
theorem run_writes_at_root : ∃ after : Except Fault Exit × Site,
    run headlessOptions.arguments [] { system := systemWith rootedEnum } = after ∧
    Options.parse .program (systemWith rootedEnum) headlessOptions.arguments =
      .ok (.options headlessOptions) ∧
    (headlessOptions.mode, headlessOptions.package, headlessOptions.replacements) =
      (.code, none, []) ∧
    (systemWith rootedEnum).locate headlessOptions.target = .ok ["work"] ∧
    Table.get? (systemWith rootedEnum).files ["tmp", "A.cs"] = none ∧
    (Table.get? after.2.system.files ["tmp", "A.cs"]).isSome ∧
    ¬["work"] <+: ["tmp", "A.cs"] := by
  have noVersion : versionMessage? headlessOptions.arguments = none := by decide +kernel
  have compiles := @compileAs_alone "a.json" "file:///work/a.json" rootedEnumMembers headlessOptions
    (systemWith rootedEnum) [] rfl (Or.inl rfl) (by decide +kernel) (by decide +kernel)
    (by decide +kernel)
  have leaves :
      (codeOf? ((compileAs headlessOptions (systemWith rootedEnum) []).onChannel {})).map
        (fun compiled =>
          let after := ((Publishing.publish headlessOptions (.code compiled.1)).run
            { system := systemWith rootedEnum, channel := compiled.2 }).2.system
          (Table.get? after.files ["tmp", "A.cs"]).isSome) = some true := by
    rw [compiles]
    decide +kernel
  obtain ⟨code, channel, compiled, isThere⟩ := exists_code_of_view leaves
  obtain ⟨-, runs⟩ :=
    @run_of_compiles _ _ { system := systemWith rootedEnum } [] _ _ noVersion parse_rootedEnum
      compiled
  refine ⟨_, rfl, parse_rootedEnum, rfl, by decide +kernel, by decide +kernel, ?_, by decide⟩
  rw [runs]
  exact isThere

end Program

end Typeloom
