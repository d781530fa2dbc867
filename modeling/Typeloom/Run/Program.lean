import Typeloom.Context.Module
import Typeloom.Run.Publication

/-!
# The program

A run reads its command line, loads the extensions that are asked for, compiles and publishes.
Everything up to the publication only reports, so that a run which is cancelled or fails early
leaves no trace.  A run without a compilation ends like one that failed.
-/

namespace Typeloom

namespace Program

open Reporting

/-- The arguments that the words of a shell stand for.  The first pair of dashes only separates them
from the name of the program. -/
def argumentsOf (words : List String) : List String :=
  words.erase "--"

/-- The message about the version that a command line asks for, wherever it does so. -/
def versionMessage? (arguments : List String) : Option Message :=
  arguments.findSome? fun argument =>
    if argument = "--version" then some .version
    else if argument = "--full-version" then some .fullVersion
    else none

def tellAll (messages : List String) : Reporting Unit :=
  messages.forM fun text => tell (.message text)

/-- Tell the listener what is wrong with a command line, and which options there are. -/
def tellProblem (problem : String) (extensions : List Extension) : Reporting Unit := do
  if !problem.isEmpty then tellAll [problem, ""]
  tellAll (Usage.blocks .program extensions false)

/-- Tell the listener that it is not a good idea to have no package. -/
def warnAboutPackage (options : Options) : Reporting Unit :=
  if options.package = some "" then
    tellAll [Message.warning.text [Message.defaultPackage.text]]
  else pure ()

def notLoaded (specification reason : String) : String :=
  Message.pluginNotLoaded.text [specification, reason]

/-- Load extensions up to the first one that cannot be loaded, and say why that is if there is
one. -/
def loadExtensions (system : FileSystem) (directories : List Path) :
    List String → Except Fault (List Extension × Option String)
  | [] => .ok ([], none)
  | specification :: rest =>
      match ExtensionModule.load system directories specification with
      | .error problem => .ok ([], some (notLoaded specification problem.describe))
      | .ok (_, .other) => .ok ([], some (notLoaded specification "not a Plugin subclass"))
      | .ok (_, .abstractExtension) => .error .wrongType
      | .ok (_, .extension extension) => do
          let (extensions, problem?) ← loadExtensions system directories rest
          return (extension :: extensions, problem?)

/-- Compile with the extensions that are switched on and those that are loaded. -/
def compileWithExtensions (source : DocumentSource) (options : Options) : Reporting Product := do
  match ← ofExcept (loadExtensions source.system options.modulePath options.moduleNames) with
  | (extensions, some problem) => do
      tellProblem problem (Options.standardExtensions ++ extensions)
      return .nothing
  | (extensions, none) =>
      Compilation.compile source options (options.extensions ++ extensions)

def compileAs (options : Options) (system : FileSystem) (remote : Table String (List UInt8)) :
    Reporting Product := do
  modify fun channel => { channel with quiet := options.quiet, verbose := options.verbose }
  warnAboutPackage options
  let connection ← ofExcept (Connection.opened { proxy := options.proxy })
  compileWithExtensions { system, remote, connection } options

/-- What a command line leads to: options and a product, unless there is nothing to compile. -/
def prepare (arguments : List String) (system : FileSystem)
    (remote : Table String (List UInt8)) : Reporting (Option (Options × Product)) := do
  match versionMessage? arguments with
  | some message => do
      tellAll [message.text]
      return none
  | none =>
      match ← ofExcept (Options.parse .program system arguments) with
      | .problem problem => do
          tellProblem problem Options.standardExtensions
          return none
      | .help blocks => do
          tellAll blocks
          return none
      | .options options => return some (options, ← compileAs options system remote)

/-- Run the program: how the run ends, or the fault that ends it, and what it has changed by
then. -/
def run (arguments : List String) (remote : Table String (List UInt8)) (site : Site) :
    Except Fault Exit × Site :=
  let (prepared, channel) := (prepare arguments site.system remote).onChannel site.channel
  let site := { site with channel }
  match prepared with
  | .error .cancelled => (.ok .failure, site)
  | .error (.fault fault) => (.error fault, site)
  | .ok none => (.ok .failure, site)
  | .ok (some (options, product)) => (Publishing.publish options product).run site

end Program

end Typeloom
