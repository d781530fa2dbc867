import Typeloom.Proofs.Model.Agreement
import Typeloom.Proofs.Render.Renderable
import Typeloom.Proofs.Run.Course
import Typeloom.Proofs.Schema.Nesting

/-!
# Compilations that cannot fail half-way

If the documents that are found are well-shaped, and the settings of the configuration have the
types that are asked of them, then loading leads to a model or to none and meets no fault, and
whatever code is generated from a model can be rendered in every target language.
-/

namespace Typeloom

open Reporting

/-! ## Well-typed configurations -/

/-- Whether every setting has a value of the type that is asked of it. -/
structure Config.WellTyped (config : Config) : Prop where
  ignoreClasses : config.ignoreClasses.AreTexts
  globalIgnoreFields : config.globalIgnoreFields.AreTexts
  orderClasses : config.orderClasses.AreTexts
  classNameReplacements : config.classNameReplacements.HasTexts
  pythonKwOnly : ∃ value, config.pythonKwOnly = .bool value
  csharpNamespace : config.csharpNamespace.IsText
  csharpAdditionalUsings : config.csharpAdditionalUsings.AreTexts

theorem Config.wellTyped_default : ({} : Config).WellTyped where
  ignoreClasses := ⟨[], rfl, by simp⟩
  globalIgnoreFields := ⟨[], rfl, by simp⟩
  orderClasses := ⟨[], rfl, by simp⟩
  classNameReplacements := ⟨[], rfl, by simp⟩
  pythonKwOnly := ⟨true, rfl⟩
  csharpNamespace := ⟨"", rfl⟩
  csharpAdditionalUsings := ⟨[], rfl, by simp⟩

theorem Config.WellTyped.namespaceTexts {config : Config} (wellTyped : config.WellTyped) :
    CSharp.NamespaceTexts config :=
  ⟨wellTyped.csharpNamespace, wellTyped.csharpAdditionalUsings⟩

theorem Json.AreTexts.exists_optionalSetElements {value : Json} (areTexts : value.AreTexts) :
    ∃ items, value.optionalSetElements = .ok items := by
  unfold optionalSetElements
  split
  · obtain ⟨items, areElements, ofItems⟩ := areTexts.exists_elements
    rw [setElements, areElements]
    refine exists_mapM_eq_ok_iff.mpr fun item occurs => ?_
    obtain ⟨content, rfl⟩ := ofItems item occurs
    exact ⟨.text content, rfl⟩
  · exact ⟨[], rfl⟩

theorem Compilation.exists_request {options : Options} (wellTyped : options.config.WellTyped) :
    ∃ asked, request options = .ok asked :=
  exists_bind_eq_ok wellTyped.ignoreClasses.exists_optionalSetElements fun _ =>
    exists_bind_eq_ok wellTyped.globalIgnoreFields.exists_optionalSetElements fun _ => ⟨_, rfl⟩

/-! ## Well-shaped documents -/

namespace Forest

/-- Whether what is found from sources can be accessed, has a name, and is well-shaped where it can
be read. -/
structure WellShaped (read : String → Except Fault (List UInt8)) (roots : List String) : Prop where
  accessible : Accessible read roots
  named : ∀ systemId members, Found read roots systemId →
    reading read systemId = .ok (.ok members) → ∃ name, Uri.rootName systemId = .ok name
  shaped : ∀ systemId members, Found read roots systemId →
    reading read systemId = .ok (.ok members) → SchemaReader.DocumentShape members

section Alone

variable {read : String → Except Fault (List UInt8)} {systemId : String} {members : Json.Members}
  (isRead : reading read systemId = .ok (.ok members))
  (alone : externalReferences (.object members) = [])

include isRead alone

/-- From a document without references nothing else is found. -/
theorem eq_of_found_alone {other : String} (found : Found read [systemId] other) :
    other = systemId := by
  induction found with
  | source isRoot => exact List.mem_singleton.mp isRoot
  | @reference origin reference target others _ isOther occurs _ ih =>
      obtain rfl := ih
      obtain rfl : others = members := by simpa [isRead, eq_comm] using isOther
      rw [alone] at occurs
      cases occurs

theorem finite_found_alone : {other | Found read [systemId] other}.Finite :=
  (Set.finite_singleton systemId).subset fun _ => eq_of_found_alone isRead alone

/-- A document without references is all that is found, so that nothing is asked but that it has a
name and is well-shaped. -/
theorem wellShaped_alone (named : ∃ name, Uri.rootName systemId = .ok name)
    (shaped : SchemaReader.DocumentShape members) : WellShaped read [systemId] := by
  have isAlone (other : String) (others : Json.Members) (found : Found read [systemId] other)
      (isOther : reading read other = .ok (.ok others)) : other = systemId ∧ others = members := by
    obtain rfl := eq_of_found_alone isRead alone found
    exact ⟨rfl, by simpa [isRead, eq_comm] using isOther⟩
  refine ⟨⟨fun other found => ?reads, fun other others found isOther => ?resolves⟩,
    fun other others found isOther => ?named, fun other others found isOther => ?shaped⟩
  case reads =>
    exact ⟨_, eq_of_found_alone isRead alone found ▸ isRead⟩
  case resolves =>
    obtain ⟨rfl, rfl⟩ := isAlone other others found isOther
    rw [alone]
    exact fun _ occurs => nomatch occurs
  case named =>
    exact (isAlone other others found isOther).1 ▸ named
  case shaped =>
    exact (isAlone other others found isOther).2 ▸ shaped

end Alone

end Forest

/-! ### One document, and one that leads ever further -/

theorem SchemaReader.shapeValid_record (name : String) : ShapeValid
    (.object [("properties", .object [(name, .object [("type", .text "string")])])]) := by
  have field : ShapeValid (.object [("type", .text "string")]) := by
    refine shapeValid_object_iff.mpr ⟨?_, fun part isPart => nomatch isPart⟩
    constructor <;> simp [Table.get?, List.lookup_cons, Json.IsText]
  refine shapeValid_object_iff.mpr ⟨?_, fun part isPart => ?_⟩
  · constructor <;> simp [Table.get?, List.lookup_cons]
  · obtain rfl := List.mem_singleton.mp isPart
    exact field

theorem SchemaReader.shape_aliasedBase : DocumentShape aliasedBase := by
  have reference : ShapeValid (.object [("$ref", .text "#/definitions/Base")]) := by
    refine shapeValid_object_iff.mpr ⟨?_, fun part isPart => nomatch isPart⟩
    constructor <;> simp [Table.get?, List.lookup_cons, Json.IsText]
  have derived : ShapeValid (.object
      [("allOf", .array
        [.object [("$ref", .text "#/definitions/Alias")],
         .object [("properties", .object [("b", .object [("type", .text "string")])])]])]) := by
    refine shapeValid_object_iff.mpr ⟨?_, fun part isPart => ?_⟩
    · constructor <;> simp [Table.get?, List.lookup_cons, Json.IsText]
    · obtain rfl := List.mem_singleton.mp isPart
      exact shapeValid_record "b"
  refine ⟨?_, ?_, fun part isPart => ?_⟩
  · simp [aliasedBase, Table.get?, List.lookup_cons]
  · simp [aliasedBase, Table.get?, List.lookup_cons]
  · change part ∈ [_, _, _] at isPart
    simp only [List.mem_cons, List.not_mem_nil, or_false] at isPart
    rcases isPart with rfl | rfl | rfl
    · exact shapeValid_record "a"
    · exact reference
    · exact derived

theorem Forest.wellShaped_readNested : WellShaped readNested [Uri.nestedAddress 0] where
  accessible := by
    refine ⟨fun systemId _ => ⟨_, reading_readNested systemId⟩, ?_⟩
    intro systemId members found isRead reference occurs
    rw [reading_readNested] at isRead
    cases isRead
    obtain ⟨depth, rfl⟩ := exists_depth_of_found found
    rw [externalReferences_nestedReference, List.mem_singleton] at occurs
    exact ⟨_, occurs ▸ Uri.documentOf_nestedAddress depth⟩
  named := by
    intro systemId members found _
    obtain ⟨depth, rfl⟩ := exists_depth_of_found found
    exact exists_bind_eq_ok ⟨_, Uri.parse_nestedAddress depth⟩ fun _ => ⟨_, rfl⟩
  shaped := by
    intro systemId members _ isRead
    rw [reading_readNested] at isRead
    cases isRead
    exact shape_nestedReference

/-! ## Loading and rendering -/

namespace Loading

variable {read : String → Except Fault (List UInt8)} {directory sources roots : List String}
  (wellShaped : Forest.WellShaped read roots)

include wellShaped

/-- The documents of a forest of well-shaped documents make a sound library. -/
theorem yields_loadLibrary
    (yields : Yields True (Forest.StemsFrom read roots) (Forest.load read directory sources)) :
    Yields True (fun library? => ∀ library ∈ library?, Analysis.SoundLibrary library)
      (loadLibrary read directory sources) := by
  refine yields_bind yields fun forest? => ?_
  cases forest? with
  | none => exact yields_pure fun _ _ isSome => nomatch isSome
  | some forest =>
      refine (yields_unless (yields_readDocuments forest.documents)
        (fun documents => some { documents }) (fun _ _ => rfl) ?_).within ?_
      · rintro documents areSound _ ⟨⟩
        exact areSound
      · rintro ⟨-, stems⟩ entry isEntry
        obtain ⟨found, isRead⟩ := stems forest rfl entry isEntry
        exact ⟨wellShaped.named _ _ found isRead, wellShaped.shaped _ _ found isRead,
          wellShaped.accessible.resolves _ _ found isRead⟩

/-- A library of sound documents leads to a sound model, or to none if an error is reported. -/
theorem yields_loadModel (asked : Analysis.Request)
    (yields : Yields True (Forest.StemsFrom read roots) (Forest.load read directory sources)) :
    Yields True (fun model? => ∀ model ∈ model?, model.Sound)
      (loadModel read directory sources (.ok asked)) := by
  refine yields_bind (yields_loadLibrary wellShaped yields) fun library? => ?_
  cases library? with
  | none => exact yields_pure fun _ _ isSome => nomatch isSome
  | some library =>
      refine yields_after (yields_ofExcept fun _ => ⟨asked, rfl, trivial⟩) fun request => ?_
      refine (yields_unless (Analysis.yields_analyze library request).returned
        (fun state => some state.model) (fun _ _ => rfl) ?_).within ?_
      · rintro state ⟨presentable, channel, after, returns⟩ _ ⟨⟩
        exact Analysis.sound_of_analyze returns presentable
      · exact fun ⟨_, sound⟩ => sound library rfl

end Loading

/-- Whether all files of the code that is generated from a model have texts, in every target
language, and its outline has signatures. -/
def Model.CanBeWritten (options : Options) (model : Model) : Prop :=
  ∀ language channel after code,
    onChannel (GeneratedCode.ofModel { options.generation with language } model) channel =
        (.ok (some code), after) →
      (∀ file ∈ code.files,
        ∃ text, code.render { options.generation with language } file = .ok text) ∧
      ∃ text, Signature.dump code.outline = .ok text

/-- The options of a command line that has nothing but sources. -/
def Options.ofSources (sources : List String) : Options where
  arguments := sources
  sources
  target := Path.parse "."
  package := none
  language := .python
  quiet := false
  verbose := false
  debug := false
  noHeader := false
  readOnly := false
  encoding := "utf-8"
  config := {}
  replacements := []
  modulePath := []
  moduleNames := []
  proxy := none
  extensions := standardExtensions
  mode := .code
  noNamespace := false

end Typeloom
