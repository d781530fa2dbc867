import Mathlib.Data.List.Nodup
import Typeloom.Generate.Code
import Typeloom.Proofs.Model.Coherence

/-!
# Names assigned to definitions

Every class and enum of a model gets an entry in the outline, with its own package and a generated
name.  Unless an error is reported, no two entries of a package have the same name.  Extensions
that keep the names keep all this.
-/

namespace Typeloom

/-- Whether the package of a definition is given as a text. -/
def TypeDefinition.HasPackageText (definition : TypeDefinition) : Prop :=
  ∃ package, definition.package = .text package

/-- What an entry of an outline says about where its class or enum is generated. -/
def TypeOutline.identity (entry : TypeOutline) : TypeDefinition × String × Json :=
  (entry.target, entry.name, entry.package)

/-- Whether an extension leaves the classes and enums of an outline, their names and their packages
as they are. -/
def Extension.KeepsNames (extension : Extension) : Prop :=
  ∀ outline channel result succeeded after,
    (extension.apply outline).onChannel channel = (.ok (result, succeeded), after) →
      result.entries.map TypeOutline.identity = outline.entries.map TypeOutline.identity

/-- Whether an extension leaves the classes and enums of an outline as they are. -/
def Extension.KeepsTypes (extension : Extension) : Prop :=
  ∀ outline channel result succeeded after,
    (extension.apply outline).onChannel channel = (.ok (result, succeeded), after) →
      result.entries.map TypeOutline.target = outline.entries.map TypeOutline.target

theorem Extension.KeepsNames.keepsTypes {extension : Extension} (keeps : extension.KeepsNames) :
    extension.KeepsTypes := by
  intro outline channel result succeeded after returns
  have same := congrArg (List.map Prod.fst) (keeps _ _ _ _ _ returns)
  rwa [List.map_map, List.map_map] at same

theorem Extension.keepsNames_frozenClasses : frozenClasses.KeepsNames := by
  intro outline channel result succeeded after returns
  cases returns
  rw [Outline.mapClasses, List.map_map]
  refine List.map_congr_left fun entry _ => ?_
  rw [Function.comp_apply]
  split <;> rfl

/-- Whether the entries of an outline stand for definitions, each in its package and under a name
that it shares with no other one there. -/
structure Outline.Assigns (definitions : List TypeDefinition) (outline : Outline) : Prop where
  targets : (outline.entries.map TypeOutline.target).Perm definitions
  packages : ∀ entry ∈ outline.entries, entry.package = entry.target.package
  distinct : (outline.entries.map fun entry => (entry.package, entry.name)).Nodup

namespace GeneratedCode

open Reporting

variable {replacements : Replacements} {definitions : List TypeDefinition}
  {definition : TypeDefinition} {state next : Outline × List TakenName} {channel after : Channel}

/-! ## Assigning names -/

/-- Whether entries were made of definitions in their order, and which names are taken by them. -/
structure Assigned (definitions : List TypeDefinition) (state : Outline × List TakenName) :
    Prop where
  targets : state.1.entries.map TypeOutline.target = definitions
  packages : ∀ entry ∈ state.1.entries, entry.package = entry.target.package
  taken : state.2.map (fun taken => (taken.package, taken.name)) =
    state.1.entries.map fun entry => (entry.package, Unicode.lower entry.name)
  distinct : (state.1.entries.map fun entry => (entry.package, Unicode.lower entry.name)).Nodup

/-- What adding a definition does, if it does not stop. -/
theorem addDefinition_inversion
    (returns : onChannel (addDefinition replacements state definition) channel =
      (.ok next, after)) :
    ∃ name, definition.package.asKey = .ok definition.package ∧
      (replacements.nameFor definition.name).textOf = .ok name ∧
      next = (state.1.add { target := definition, name, package := definition.package },
        state.2 ++ [{ package := definition.package, name := Unicode.lower name
                      source := definition.source }]) ∧
      channel.errors ≤ after.errors ∧
      (after.errors ≤ channel.errors →
        ownerOf? state.2 definition.package (Unicode.lower name) = none) := by
  obtain ⟨name, _, isName, rest⟩ := exists_of_onChannel_bind returns
  obtain ⟨isText, rfl⟩ := of_onChannel_ofExcept isName
  obtain ⟨package, _, isPackage, rest⟩ := exists_of_onChannel_bind rest
  obtain ⟨isKey, rfl⟩ := of_onChannel_ofExcept isPackage
  obtain rfl : definition.package = package := by
    unfold Json.asKey at isKey
    split at isKey <;> cases isKey
    rfl
  dsimp only at rest
  cases owner : ownerOf? state.2 definition.package (Unicode.lower name) with
  | none =>
      rw [owner] at rest
      cases rest
      exact ⟨name, isKey, isText, rfl, Nat.le_refl _, fun _ => owner⟩
  | some source =>
      rw [owner] at rest
      obtain ⟨_, between, reports, last⟩ := exists_of_onChannel_bind rest
      cases reports
      cases last
      refine ⟨name, isKey, isText, rfl, ?_⟩
      simp only [Channel.errors_notify, Severity.isError, if_true]
      exact ⟨Nat.le_succ _, fun noError => by omega⟩

theorem not_taken_of_ownerOf?_eq_none {taken : List TakenName} {package name : String}
    (free : ownerOf? taken (.text package) name = none) :
    (Json.text package, name) ∉ taken.map fun entry => (entry.package, entry.name) := by
  intro occurs
  obtain ⟨entry, isTaken, same⟩ := List.mem_map.mp occurs
  obtain ⟨samePackage, sameName⟩ := Prod.mk.inj same
  rw [ownerOf?, Option.map_eq_none_iff, List.find?_eq_none] at free
  refine free entry (List.mem_reverse.mpr isTaken) ?_
  simp [samePackage, sameName, Json.same]

theorem Assigned.add (assigned : Assigned definitions state)
    (hasText : definition.HasPackageText)
    (returns : onChannel (addDefinition replacements state definition) channel = (.ok next, after))
    (noError : after.errors ≤ channel.errors) : Assigned (definitions ++ [definition]) next := by
  obtain ⟨name, -, -, rfl, -, isFree⟩ := addDefinition_inversion returns
  obtain ⟨package, isText⟩ := hasText
  have free : (definition.package, Unicode.lower name) ∉
      state.1.entries.map fun entry => (entry.package, Unicode.lower entry.name) := by
    rw [← assigned.taken, isText]
    exact not_taken_of_ownerOf?_eq_none (isText ▸ isFree noError)
  refine ⟨?_, ?_, ?_, ?_⟩
  · simp [Outline.add, assigned.targets]
  · intro entry occurs
    rcases List.mem_append.mp occurs with old | new
    · exact assigned.packages entry old
    · rw [List.mem_singleton.mp new]
  · simp [Outline.add, assigned.taken]
  · simp only [Outline.add, List.map_append, List.map_cons, List.map_nil]
    rw [List.nodup_append_comm, List.singleton_append, List.nodup_cons]
    exact ⟨free, assigned.distinct⟩

/-- Adding definitions takes back no error. -/
theorem errors_le_of_foldlM
    (returns : onChannel (definitions.foldlM (addDefinition replacements) state) channel =
      (.ok next, after)) : channel.errors ≤ after.errors := by
  induction definitions generalizing state channel with
  | nil => cases returns; exact Nat.le_refl _
  | cons definition rest ih =>
      rw [List.foldlM_cons] at returns
      obtain ⟨middle, between, first, later⟩ := exists_of_onChannel_bind returns
      obtain ⟨_, -, -, -, grows, -⟩ := addDefinition_inversion first
      exact Nat.le_trans grows (ih later)

theorem Assigned.addAll {rest : List TypeDefinition} (assigned : Assigned definitions state)
    (haveTexts : ∀ definition ∈ rest, definition.HasPackageText)
    (returns : onChannel (rest.foldlM (addDefinition replacements) state) channel =
      (.ok next, after))
    (noError : after.errors ≤ channel.errors) : Assigned (definitions ++ rest) next := by
  induction rest generalizing definitions state channel with
  | nil =>
      cases returns
      rwa [List.append_nil]
  | cons definition rest ih =>
      rw [List.foldlM_cons] at returns
      obtain ⟨middle, between, first, later⟩ := exists_of_onChannel_bind returns
      obtain ⟨_, -, -, -, grows, -⟩ := addDefinition_inversion first
      have growsOn := errors_le_of_foldlM later
      have hasText := haveTexts definition List.mem_cons_self
      have assignedToo := assigned.add hasText first (by omega)
      rw [List.append_cons]
      exact ih assignedToo (fun other occurs => haveTexts other (List.mem_cons_of_mem _ occurs))
        later (by omega)

theorem perm_orderedClasses {config : Config} {classes ordered : List ClassDefinition}
    (isOrdered : orderedClasses config classes = .ok ordered) : ordered.Perm classes := by
  unfold orderedClasses at isOrdered
  split at isOrdered
  · obtain ⟨order, -, last⟩ := exists_of_bind_eq_ok isOrdered
    cases last
    exact List.mergeSort_perm ..
  · cases isOrdered
    exact .refl _

theorem targets_of_foldlM
    (returns : onChannel (definitions.foldlM (addDefinition replacements) state) channel =
      (.ok next, after)) :
    next.1.entries.map TypeOutline.target =
      state.1.entries.map TypeOutline.target ++ definitions := by
  induction definitions generalizing state channel with
  | nil =>
      cases returns
      rw [List.append_nil]
  | cons definition rest ih =>
      rw [List.foldlM_cons] at returns
      obtain ⟨middle, between, first, later⟩ := exists_of_onChannel_bind returns
      obtain ⟨name, -, -, rfl, -, -⟩ := addDefinition_inversion first
      rw [ih later, Outline.add, List.map_append, List.append_assoc]
      rfl

/-- Whatever their packages, the definitions of a model have one entry each. -/
theorem targets_of_outlineOf {settings : GenerationSettings} {model : Model} {outline : Outline}
    (returns : onChannel (outlineOf settings model) channel = (.ok outline, after)) :
    (outline.entries.map TypeOutline.target).Perm model.definitions := by
  obtain ⟨classes, _, ordered, rest⟩ := exists_of_onChannel_bind returns
  obtain ⟨isOrdered, rfl⟩ := of_onChannel_ofExcept ordered
  obtain ⟨final, _, adds, last⟩ := exists_of_onChannel_bind rest
  cases last
  rw [targets_of_foldlM adds]
  exact ((perm_orderedClasses isOrdered).map _).append_right _

/-- The entries of an outline are made of the definitions of the model, in some order. -/
theorem assigned_of_outlineOf {settings : GenerationSettings} {model : Model} {outline : Outline}
    (haveTexts : ∀ definition ∈ model.definitions, definition.HasPackageText)
    (returns : onChannel (outlineOf settings model) channel = (.ok outline, after))
    (noError : after.errors ≤ channel.errors) :
    ∃ definitions taken, definitions.Perm model.definitions ∧
      Assigned definitions (outline, taken) := by
  obtain ⟨classes, _, ordered, rest⟩ := exists_of_onChannel_bind returns
  obtain ⟨isOrdered, rfl⟩ := of_onChannel_ofExcept ordered
  obtain ⟨final, _, adds, last⟩ := exists_of_onChannel_bind rest
  cases last
  have same : (classes.map TypeDefinition.ofClass ++ model.enums.map TypeDefinition.ofEnum).Perm
      model.definitions :=
    ((perm_orderedClasses isOrdered).map _).append_right _
  have nothing : Assigned [] ({}, []) := ⟨rfl, by simp, rfl, List.nodup_nil⟩
  exact ⟨_, _, same, nothing.addAll
    (fun definition occurs => haveTexts definition (same.mem_iff.mp occurs)) adds noError⟩

theorem assigns_of_outlineOf {settings : GenerationSettings} {model : Model} {outline : Outline}
    (haveTexts : ∀ definition ∈ model.definitions, definition.HasPackageText)
    (returns : onChannel (outlineOf settings model) channel = (.ok outline, after))
    (noError : after.errors ≤ channel.errors) : outline.Assigns model.definitions := by
  obtain ⟨definitions, taken, same, assigned⟩ := assigned_of_outlineOf haveTexts returns noError
  refine ⟨?_, assigned.packages, ?_⟩
  · rw [assigned.targets]
    exact same
  · refine List.Nodup.of_map (fun pair => (pair.1, Unicode.lower pair.2)) ?_
    rw [List.map_map]
    exact assigned.distinct

/-- Whether the entries of an outline stand for definitions and have the names that are to be put
for those of the definitions. -/
def NamedAfter (replacements : Replacements) (definitions : List TypeDefinition)
    (outline : Outline) : Prop :=
  ∀ entry ∈ outline.entries, entry.target ∈ definitions ∧
    (replacements.nameFor entry.target.name).textOf = .ok entry.name

theorem namedAfter_of_foldlM {rest : List TypeDefinition}
    (named : NamedAfter replacements definitions state.1) (areIn : rest ⊆ definitions)
    (returns : onChannel (rest.foldlM (addDefinition replacements) state) channel =
      (.ok next, after)) : NamedAfter replacements definitions next.1 := by
  induction rest generalizing state channel with
  | nil =>
      cases returns
      exact named
  | cons definition rest ih =>
      rw [List.foldlM_cons] at returns
      obtain ⟨middle, between, first, later⟩ := exists_of_onChannel_bind returns
      obtain ⟨name, -, isText, rfl, -, -⟩ := addDefinition_inversion first
      refine ih (fun entry occurs => ?_) (List.subset_of_cons_subset areIn) later
      rcases List.mem_append.mp occurs with old | new
      · exact named entry old
      · rw [List.mem_singleton.mp new]
        exact ⟨areIn List.mem_cons_self, isText⟩

theorem namedAfter_of_outlineOf {settings : GenerationSettings} {model : Model} {outline : Outline}
    (returns : onChannel (outlineOf settings model) channel = (.ok outline, after)) :
    NamedAfter settings.replacements model.definitions outline := by
  obtain ⟨classes, _, ordered, rest⟩ := exists_of_onChannel_bind returns
  obtain ⟨isOrdered, rfl⟩ := of_onChannel_ofExcept ordered
  obtain ⟨final, _, adds, last⟩ := exists_of_onChannel_bind rest
  cases last
  have same : (classes.map TypeDefinition.ofClass ++ model.enums.map TypeDefinition.ofEnum).Perm
      model.definitions :=
    ((perm_orderedClasses isOrdered).map _).append_right _
  have nothing : NamedAfter settings.replacements model.definitions {} :=
    fun _ occurs => nomatch occurs
  exact namedAfter_of_foldlM nothing same.subset adds

end GeneratedCode

/-- Whatever a model defines has an entry in an outline of all its definitions. -/
theorem Outline.exists_entry_of_defines {outline : Outline} {model : Model}
    (targets : (outline.entries.map TypeOutline.target).Perm model.definitions) {name : String}
    (defined : model.Defines name) : ∃ entry ∈ outline.entries, entry.modelName = name := by
  obtain ⟨definition, isDefinition, isName⟩ := defined
  obtain ⟨entry, isEntry, rfl⟩ := List.mem_map.mp (targets.mem_iff.mpr isDefinition)
  exact ⟨entry, isEntry, isName⟩

/-! ## Extensions -/

namespace Outline

variable {definitions : List TypeDefinition} {outline result : Outline}

/-- With different model names, every entry is found under its own one. -/
theorem resolve?_modelName (distinct : (outline.entries.map TypeOutline.modelName).Nodup)
    {entry : TypeOutline} (isEntry : entry ∈ outline.entries) :
    outline.resolve? entry.modelName = some entry := by
  obtain ⟨found, resolves⟩ := Outline.exists_resolve? isEntry
  obtain ⟨isFound, sameName⟩ := Outline.mem_of_resolve? resolves
  rw [resolves, List.inj_on_of_nodup_map distinct isFound isEntry sameName]

theorem resolve?_eq_some_iff (distinct : (outline.entries.map TypeOutline.modelName).Nodup)
    {name : String} {entry : TypeOutline} :
    outline.resolve? name = some entry ↔ entry ∈ outline.entries ∧ entry.modelName = name := by
  refine ⟨mem_of_resolve?, ?_⟩
  rintro ⟨isEntry, rfl⟩
  exact resolve?_modelName distinct isEntry

theorem Assigns.congr (assigns : outline.Assigns definitions)
    (same : result.entries.map TypeOutline.identity = outline.entries.map TypeOutline.identity) :
    result.Assigns definitions := by
  have view {β : Type} (f : TypeDefinition × String × Json → β) :
      result.entries.map (fun entry => f entry.identity) =
        outline.entries.map fun entry => f entry.identity := by
    simpa [Function.comp_def] using congrArg (List.map f) same
  refine ⟨?_, fun entry occurs => ?_, ?_⟩
  · exact (view Prod.fst).symm ▸ assigns.targets
  · have isIdentity : entry.identity ∈ outline.entries.map TypeOutline.identity :=
      same ▸ List.mem_map_of_mem occurs
    obtain ⟨original, isOriginal, equal⟩ := List.mem_map.mp isIdentity
    have kept := assigns.packages original isOriginal
    simp only [TypeOutline.identity, Prod.mk.injEq] at equal
    rw [← equal.1, ← equal.2.2]
    exact kept
  · exact (view fun identity => (identity.2.2, identity.2.1)).symm ▸ assigns.distinct

/-- What extensions keep that are applied one after the other. -/
theorem relates_of_applyAll {extensions : List Extension} {channel after : Channel}
    (relation : Outline → Outline → Prop) (refl : ∀ outline, relation outline outline)
    (trans : ∀ first second third, relation first second → relation second third →
      relation first third)
    (keep : ∀ extension ∈ extensions, ∀ outline channel result succeeded after,
      (extension.apply outline).onChannel channel = (.ok (result, succeeded), after) →
        relation outline result)
    (returns : (Extension.applyAll extensions outline).onChannel channel =
      (.ok (some result), after)) : relation outline result := by
  induction extensions generalizing outline channel with
  | nil =>
      cases returns
      exact refl _
  | cons extension rest ih =>
      obtain ⟨keepsFirst, keepRest⟩ := List.forall_mem_cons.mp keep
      obtain ⟨⟨changed, succeeded⟩, between, first, later⟩ :=
        Reporting.exists_of_onChannel_bind returns
      cases succeeded with
      | false => cases later
      | true => exact trans _ _ _ (keepsFirst _ _ _ _ _ first) (ih keepRest later)

theorem identities_of_applyAll {extensions : List Extension} {channel after : Channel}
    (keep : ∀ extension ∈ extensions, extension.KeepsNames)
    (returns : (Extension.applyAll extensions outline).onChannel channel =
      (.ok (some result), after)) :
    result.entries.map TypeOutline.identity = outline.entries.map TypeOutline.identity :=
  relates_of_applyAll (fun outline result =>
      result.entries.map TypeOutline.identity = outline.entries.map TypeOutline.identity)
    (fun _ => rfl) (fun _ _ _ same sameToo => sameToo.trans same) keep returns

theorem targets_of_applyAll {extensions : List Extension} {channel after : Channel}
    (keep : ∀ extension ∈ extensions, extension.KeepsTypes)
    (returns : (Extension.applyAll extensions outline).onChannel channel =
      (.ok (some result), after)) :
    result.entries.map TypeOutline.target = outline.entries.map TypeOutline.target :=
  relates_of_applyAll (fun outline result =>
      result.entries.map TypeOutline.target = outline.entries.map TypeOutline.target)
    (fun _ => rfl) (fun _ _ _ same sameToo => sameToo.trans same) keep returns

end Outline

namespace GeneratedCode

open Reporting

variable {settings : GenerationSettings} {extensions : List Extension} {model : Model}
  {code : GeneratedCode} {channel after : Channel}

/-- Code is generated by making an outline, for which files are registered, and by applying the
extensions to it, all without an error. -/
theorem generate_inversion
    (returns : onChannel (generate settings extensions model) channel = (.ok (some code), after)) :
    ∃ outline between, onChannel (outlineOf settings model) channel = (.ok outline, between) ∧
      between.errors ≤ channel.errors ∧ code.files = settings.language.files outline ∧
      onChannel (Extension.applyAll extensions outline) between =
        (.ok (some code.outline), after) := by
  obtain ⟨code?, between, makes, rest⟩ := exists_of_onChannel_bind returns
  cases code? with
  | none => cases rest
  | some made =>
      obtain ⟨outline, names, isMade, noError⟩ := exists_of_onChannel_unless makes fun _ _ => rfl
      obtain ⟨outline?, _, applies, last⟩ := exists_of_onChannel_bind rest
      cases outline? with
      | none => cases last
      | some result =>
          obtain ⟨_, ofAll, rfl, -⟩ := exists_of_onChannel_unless applies fun _ _ => rfl
          cases isMade
          cases last
          exact ⟨outline, between, names, noError, rfl, ofAll⟩

/-- What generated code is made of: an outline that assigns names, the files registered for it, and
the same outline as the extensions leave it. -/
theorem exists_outline_of_generate
    (haveTexts : ∀ definition ∈ model.definitions, definition.HasPackageText)
    (keep : ∀ extension ∈ extensions, extension.KeepsNames)
    (returns : onChannel (generate settings extensions model) channel =
      (.ok (some code), after)) :
    ∃ outline : Outline, outline.Assigns model.definitions ∧
      code.files = settings.language.files outline ∧
      code.outline.entries.map TypeOutline.identity =
        outline.entries.map TypeOutline.identity := by
  obtain ⟨outline, between, names, noError, areFiles, applies⟩ := generate_inversion returns
  exact ⟨outline, assigns_of_outlineOf haveTexts names noError, areFiles,
    Outline.identities_of_applyAll keep applies⟩

/-- Generated code has one entry for each class and enum of the model. -/
theorem targets_of_generate (keep : ∀ extension ∈ extensions, extension.KeepsTypes)
    (returns : onChannel (generate settings extensions model) channel = (.ok (some code), after)) :
    (code.outline.entries.map TypeOutline.target).Perm model.definitions := by
  obtain ⟨outline, between, names, -, -, applies⟩ := generate_inversion returns
  rw [Outline.targets_of_applyAll keep applies]
  exact targets_of_outlineOf names

end GeneratedCode

end Typeloom
