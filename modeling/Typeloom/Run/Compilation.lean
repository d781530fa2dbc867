import Typeloom.ContentModel.OfSchema
import Typeloom.Context.Document
import Typeloom.Model.Loading
import Typeloom.Options.Options
import Typeloom.Render.Signature

/-!
# Compilations

A compilation loads the documents of its options and makes of them what the mode asks for.  It
reports to the listener and may be cancelled, and it writes nothing: what there is to write is its
product.
-/

namespace Typeloom

inductive Product where
  /-- Nothing, because it failed. -/
  | nothing
  /-- A text for the standard output, in pieces that may turn out not to exist. -/
  | text (pieces : List (Except Fault String))
  | code (code : GeneratedCode)
deriving Inhabited

namespace Compilation

open Reporting

def tellMessage (message : Message) : Reporting Unit :=
  tell (.message message.text)

/-- Tell the listener how far the compilation is, unless that is to be withheld. -/
def tellProgress (options : Options) (message : Message) : Reporting Unit :=
  if options.quiet then pure () else tellMessage message

/-- Tell the listener that the compilation failed. -/
def failWith (message : Message) : Reporting Product := do
  tellMessage message
  return .nothing

def request (options : Options) : Except Fault Analysis.Request := do
  return {
    package := options.package
    ignoredClasses := ← options.config.ignoreClasses.optionalSetElements
    ignoredFields := ← options.config.globalIgnoreFields.optionalSetElements }

def loadModel (source : DocumentSource) (options : Options) : Reporting (Option Model) :=
  Loading.loadModel source.read source.system.current options.sources (request options)

def compileForest (source : DocumentSource) (options : Options) : Reporting Product := do
  match ← Forest.load source.read source.system.current options.sources with
  | none => return .nothing
  | some forest => return .text [.ok forest.dump]

def compileContentModels (source : DocumentSource) (options : Options) : Reporting Product := do
  match ← Loading.loadLibrary source.read source.system.current options.sources with
  | none => return .nothing
  | some library => return .text (ContentModel.pieces library)

def compileSignatures (options : Options) (model : Model) : Reporting Product := do
  match ← GeneratedCode.ofModel options.generation model with
  | none => failWith .generationFailed
  | some code => return .text (Signature.pieces code.outline)

/-- The code of a model, of which the listener is told. -/
def compileCode (options : Options) (extensions : List Extension) (model : Model) :
    Reporting Product := do
  match ← GeneratedCode.generate options.generation extensions model with
  | none => failWith .generationFailed
  | some code => do
      tell (.compiled code.outline code.files.length)
      return .code code

/-- Load the model and make of it what the mode asks for. -/
def compileModel (source : DocumentSource) (options : Options) (extensions : List Extension) :
    Reporting Product := do
  match ← loadModel source options with
  | none => failWith .parseFailed
  | some model => do
      tellProgress options .compilingSchema
      if options.mode = .signature then compileSignatures options model
      else compileCode options extensions model

def compile (source : DocumentSource) (options : Options) (extensions : List Extension) :
    Reporting Product := do
  tellProgress options .parsingSchema
  match options.mode with
  | .forest => compileForest source options
  | .gbind => compileContentModels source options
  | _ => compileModel source options extensions

end Compilation

end Typeloom
