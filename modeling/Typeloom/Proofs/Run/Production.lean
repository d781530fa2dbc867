import Typeloom.Proofs.Run.Course

/-!
# Where the product of a run comes from

A run that has code for its product has understood its command line, loaded a model of its sources
and settled the files for that model.
-/

namespace Typeloom

open Reporting

variable {channel after : Channel} {code : GeneratedCode}

/-- Extensions do not change which files there are. -/
theorem GeneratedCode.exists_ofModel_of_generate {settings : GenerationSettings}
    {extensions : List Extension} {model : Model}
    (returns : (generate settings extensions model).onChannel channel = (.ok (some code), after)) :
    ∃ made between, (ofModel settings model).onChannel channel = (.ok (some made), between) ∧
      code.files = made.files := by
  obtain ⟨made?, between, makes, rest⟩ := exists_of_onChannel_bind returns
  cases made? with
  | none => cases rest
  | some made =>
      obtain ⟨outline?, _, -, last⟩ := exists_of_onChannel_bind rest
      cases outline? with
      | none => cases last
      | some outline =>
          cases last
          exact ⟨made, between, makes, rfl⟩

/-- The code is made of a model that was loaded from the sources of the options. -/
structure Compilation.Produces (options : Options) (code : GeneratedCode) (model : Model) :
    Prop where
  loads : ∃ source channel after,
    (loadModel source options).onChannel channel = (.ok (some model), after)
  generates : ∃ made channel after,
    (GeneratedCode.ofModel options.generation model).onChannel channel = (.ok (some made), after) ∧
      code.files = made.files

namespace Compilation

variable {options : Options}

/-- The files of the code are those of an outline in the target language. -/
theorem Produces.exists_files {model : Model} (produces : Produces options code model) :
    ∃ outline, code.files = options.language.files outline := by
  obtain ⟨made, _, _, makes, sameFiles⟩ := produces.generates
  obtain ⟨outline, -, isMade, -⟩ := exists_of_onChannel_unless makes fun _ _ => rfl
  cases isMade
  exact ⟨outline, sameFiles⟩

/-- What a compilation can lead to: nothing, a text if that is asked for, or code that is made of a
model and of which the listener is told at last. -/
inductive Leads (options : Options) (after : Channel) : Product → Prop where
  | nothing : Leads options after .nothing
  | text {pieces : List (Except Fault String)} (noCode : ¬options.mode.GeneratesCode) :
      Leads options after (.text pieces)
  | code {code : GeneratedCode} {model : Model} {before : Channel}
      (produces : Produces options code model)
      (tells : after = before.tell (.compiled code.outline code.files.length)) :
      Leads options after (.code code)

theorem leads_of_failWith {message : Message} {product : Product}
    (returns : (failWith message).onChannel channel = (.ok product, after)) :
    Leads options after product := by
  obtain ⟨_, _, -, last⟩ := exists_of_onChannel_bind returns
  cases last
  exact .nothing

theorem leads_of_compileModel {source : DocumentSource} {extensions : List Extension}
    {product : Product}
    (returns : (compileModel source options extensions).onChannel channel = (.ok product, after)) :
    Leads options after product := by
  obtain ⟨model?, _, loads, rest⟩ := exists_of_onChannel_bind returns
  cases model? with
  | none => exact leads_of_failWith rest
  | some model =>
      obtain ⟨_, _, -, rest⟩ := exists_of_onChannel_bind rest
      split at rest
      · rename_i isSignature
        obtain ⟨made?, _, -, rest⟩ := exists_of_onChannel_bind rest
        cases made? with
        | none => exact leads_of_failWith rest
        | some made =>
            cases rest
            exact .text (by simp [Mode.GeneratesCode, isSignature])
      · obtain ⟨made?, _, generates, rest⟩ := exists_of_onChannel_bind rest
        cases made? with
        | none => exact leads_of_failWith rest
        | some made =>
            obtain ⟨_, _, tells, last⟩ := exists_of_onChannel_bind rest
            cases last
            cases tells
            obtain ⟨first, _, makes, sameFiles⟩ :=
              GeneratedCode.exists_ofModel_of_generate generates
            exact .code ⟨⟨_, _, _, loads⟩, ⟨first, _, _, makes, sameFiles⟩⟩ rfl

theorem leads_of_compile {source : DocumentSource} {extensions : List Extension}
    {product : Product}
    (returns : (compile source options extensions).onChannel channel = (.ok product, after)) :
    Leads options after product := by
  obtain ⟨_, _, -, rest⟩ := exists_of_onChannel_bind returns
  split at rest
  · rename_i isForest
    obtain ⟨forest?, _, -, last⟩ := exists_of_onChannel_bind rest
    cases forest? with
    | none =>
        cases last
        exact .nothing
    | some forest =>
        cases last
        exact .text (by simp [Mode.GeneratesCode, isForest])
  · rename_i isContentModels
    obtain ⟨library?, _, -, last⟩ := exists_of_onChannel_bind rest
    cases library? with
    | none =>
        cases last
        exact .nothing
    | some library =>
        cases last
        exact .text (by simp [Mode.GeneratesCode, isContentModels])
  · exact leads_of_compileModel rest

end Compilation

namespace Program

variable {options : Options} {system : FileSystem} {remote : Table String (List UInt8)}

theorem leads_of_compileAs {product : Product}
    (returns : (compileAs options system remote).onChannel channel = (.ok product, after)) :
    Compilation.Leads options after product := by
  obtain ⟨_, _, -, rest⟩ := exists_of_onChannel_bind returns
  obtain ⟨_, _, -, rest⟩ := exists_of_onChannel_bind rest
  obtain ⟨connection, _, -, rest⟩ := exists_of_onChannel_bind rest
  obtain ⟨⟨extensions, problem?⟩, _, -, rest⟩ := exists_of_onChannel_bind rest
  cases problem? with
  | some problem =>
      obtain ⟨_, _, -, last⟩ := exists_of_onChannel_bind rest
      cases last
      exact .nothing
  | none => exact Compilation.leads_of_compile rest

theorem exists_produces_of_compileAs
    (returns : (compileAs options system remote).onChannel channel = (.ok (.code code), after)) :
    ∃ model, Compilation.Produces options code model := by
  cases leads_of_compileAs returns with
  | code produces tells => exact ⟨_, produces⟩

/-- What is prepared comes from the options to which the command line leads. -/
theorem exists_of_prepare {arguments : List String} {product : Product}
    (returns : (prepare arguments system remote).onChannel channel =
      (.ok (some (options, product)), after)) :
    Options.parse .program system arguments = .ok (.options options) ∧
      ∃ between, (compileAs options system remote).onChannel between = (.ok product, after) := by
  unfold prepare at returns
  split at returns
  · obtain ⟨_, _, -, last⟩ := exists_of_onChannel_bind returns
    cases last
  · obtain ⟨outcome, between, parses, rest⟩ := exists_of_onChannel_bind returns
    obtain ⟨isParsed, rfl⟩ := of_onChannel_ofExcept parses
    cases outcome with
    | problem problem =>
        obtain ⟨_, _, -, last⟩ := exists_of_onChannel_bind rest
        cases last
    | help blocks =>
        obtain ⟨_, _, -, last⟩ := exists_of_onChannel_bind rest
        cases last
    | options found =>
        obtain ⟨_, _, compiles, last⟩ := exists_of_onChannel_bind rest
        cases last
        exact ⟨isParsed, _, compiles⟩

end Program

end Typeloom
