import Typeloom.Text.Pieces

/-!
# The modules of the compiler

The modules that come with the compiler and the names in them, all of which can be asked for as
extensions, although few of them are.  A module is a single file, a package with modules below it,
or a folder that holds no code of its own.
-/

namespace Typeloom

inductive ModuleForm where
  | file
  /-- A file with modules below it. -/
  | package
  /-- A folder without code. -/
  | folder
deriving DecidableEq, Repr, Inhabited

namespace ModuleForm

def mayHaveModules (form : ModuleForm) : Bool :=
  form != .file

/-- The names that a module of any form has. -/
def generalNames : List String :=
  ("__annotations__ __class__ __delattr__ __dict__ __dir__ __doc__ __eq__ __format__ __ge__ " ++
    "__getattribute__ __getstate__ __gt__ __hash__ __init__ __init_subclass__ __le__ " ++
    "__loader__ __lt__ __name__ __ne__ __new__ __package__ __reduce__ __reduce_ex__ __repr__ " ++
    "__setattr__ __sizeof__ __spec__ __str__ __subclasshook__").splitOn " "

def codeNames : List String :=
  ["__builtins__", "__cached__", "__file__"]

/-- The names that a module has because of its form. -/
def names : ModuleForm → List String
  | .file => generalNames ++ codeNames
  | .package => "__path__" :: generalNames ++ codeNames
  | .folder => "__path__" :: generalNames

end ModuleForm

structure StandardModule where
  /-- The name below the package of the compiler, which is empty for the package itself. -/
  name : String
  form : ModuleForm
  /-- The names in the module, with a space between every two of them. -/
  contents : String
deriving DecidableEq, Repr, Inhabited

namespace StandardModule

def packageName : String := "json_schema_compiler"

def fullName (standardModule : StandardModule) : String :=
  if standardModule.name.isEmpty then packageName
  else packageName ++ "." ++ standardModule.name

def names (standardModule : StandardModule) : List String :=
  standardModule.contents.splitOn " "

def all : List StandardModule := [
  ⟨"", .package,
    "CompilerListener ConsoleListener Diagnostic DriverOptions GeneratorConfig Mode Plugin " ++
    "Severity __version__ cli_utils config context diagnostics driver error_receiver errors " ++
    "execution gbind generator messages model modes options plugin reader run " ++
    "run_with_streams utils writer __all__"⟩,
  ⟨"cli_utils", .file, "PROGRAM Path Sequence reconstruct_command_line"⟩,
  ⟨"config", .file, "GeneratorConfig Path annotations asdict dataclass field fields json"⟩,
  ⟨"context", .file,
    "IO ModuleType Path ProxySettings RunContext SYSTEM_PROXY_VARIABLE Sequence " ++
    "_PROXY_PATTERN annotations dataclass importlib io logger logging os re sys urllib"⟩,
  ⟨"diagnostics", .file,
    "CompilerListener ConsoleErrorReporter ConsoleListener Diagnostic Enum IO Severity " ++
    "TYPE_CHECKING annotations dataclass field io json"⟩,
  ⟨"driver", .file,
    "AbortError Any BadCommandLineError BeanGenerator Callable CodeModel CompilerListener " ++
    "ConsoleListener Diagnostic DriverErrorFilter DriverOptions ExpressionBuilder Graph IO " ++
    "InlineExecutor IsolatedExecutor Language Mode ModeType ModelLoader Options Outline " ++
    "ParseResult ParseStatus Path ProgressCodeWriter RunContext SYSTEM_PROXY_VARIABLE " ++
    "SchemaLoadError Sequence SignatureWriter ZipCodeWriter _compile _dump_grammars " ++
    "_report_usage_error _write_outline annotations click dump_options io logger logging " ++
    "main messages os run run_with_streams sys usage"⟩,
  ⟨"error_receiver", .file,
    "ABC AbortError Diagnostic DriverErrorFilter ErrorListener ErrorReceiver " ++
    "ErrorReceiverFilter Protocol Severity abstractmethod annotations logger logging"⟩,
  ⟨"errors", .file, "AbortError BadCommandLineError SchemaLoadError annotations"⟩,
  ⟨"execution", .file,
    "ABC Callable DEFAULT_RECURSION_LIMIT DEFAULT_STACK_SIZE ExecutionContext " ++
    "InlineExecutor IsolatedExecutor T TypeVar abstractmethod annotations logger logging " ++
    "sys threading"⟩,
  ⟨"gbind", .package,
    "Choice EPSILON Element Epsilon Expression ExpressionBuilder Graph OneOrMore Sequence " ++
    "builder expression graph __all__"⟩,
  ⟨"gbind.builder", .file,
    "AllOfNode ArrayNode ComplexType EPSILON Element Expression ExpressionBuilder " ++
    "ObjectNode OneOrMore PropertyDef SchemaAST SchemaNode SchemaSet annotations optional " ++
    "sequence"⟩,
  ⟨"gbind.expression", .file,
    "ABC Choice EPSILON Element Epsilon Expression OneOrMore Sequence abstractmethod " ++
    "annotations dataclass optional sequence"⟩,
  ⟨"gbind.graph", .file, "Element Expression Graph annotations"⟩,
  ⟨"generator", .package,
    "BeanGenerator ClassOutline CodeModel CompilationUnit EnumOutline Outline " ++
    "SignatureWriter backends bean_generator code_model outline signature __all__"⟩,
  ⟨"generator.backends", .file,
    "ABC Any CSharpRenderer ClassOutline CodeModel EnumOutline FieldDef GeneratorConfig " ++
    "Outline Path PythonRenderer RENDERERS Renderer TEMPLATE_ROOT TypeKind TypeRef " ++
    "abstractmethod annotations create_renderer escape_csharp_keyword jinja2 json " ++
    "pascal_to_snake_case python_identifier snake_to_pascal_case"⟩,
  ⟨"generator.bean_generator", .file,
    "BeanGenerator ClassDef ClassOutline EnumDef EnumOutline ErrorReceiver " ++
    "ErrorReceiverFilter Outline Severity TYPE_CHECKING annotations create_renderer logger " ++
    "logging"⟩,
  ⟨"generator.code_model", .file,
    "Callable CodeModel CodeWriter CompilationUnit annotations dataclass logger logging " ++
    "unit_path"⟩,
  ⟨"generator.outline", .file,
    "ClassDef ClassOutline CodeModel EnumDef EnumOutline Outline annotations dataclass " ++
    "field"⟩,
  ⟨"generator.signature", .file, "IO Outline SignatureWriter TypeKind TypeRef annotations"⟩,
  ⟨"messages", .file,
    "ADDON_USAGE BUILD_ID COMPILING_SCHEMA DEFAULT_PACKAGE_WARNING DRIVER_PRIVATE_USAGE " ++
    "DRIVER_PUBLIC_USAGE FAILED_TO_GENERATE_CODE FILE_PROLOG_COMMENT FULLVERSION " ++
    "INVALID_CONFIG INVALID_PROXY INVALID_REPLACEMENT NON_EXISTENT_DIR NO_BINARY_STDOUT " ++
    "NO_SCHEMA_FILES PARSE_FAILED PARSING_SCHEMA PLUGIN_LOAD_FAILED STACK_OVERFLOW " ++
    "UNRECOGNIZED_MODE VERSION WARNING_MSG _MESSAGES __version__ annotations format"⟩,
  ⟨"model", .package, "ClassDef EnumDef FieldDef TypeKind TypeRef analyzer model nodes __all__"⟩,
  ⟨"model.analyzer", .file,
    "AllOfNode ArrayNode ClassDef ConstNode DEFAULT_PACKAGE Declaration EnumDef EnumNode " ++
    "ErrorReceiver FieldDef ObjectNode PRIMITIVE_TYPES PrimitiveNode ROOT_KEY RefNode " ++
    "SchemaAST SchemaAnalyzer SchemaNode SchemaSet Severity TypeKind TypeRef UnionNode " ++
    "annotations dataclass enum_member_name logger logging snake_to_pascal_case"⟩,
  ⟨"model.model", .file,
    "BeanGenerator ClassDef EnumDef ErrorReceiver ErrorReceiverFilter Model TYPE_CHECKING " ++
    "annotations logger logging"⟩,
  ⟨"model.nodes", .file,
    "Any ClassDef Enum EnumDef FieldDef Iterator TypeKind TypeRef annotations dataclass " ++
    "field"⟩,
  ⟨"modes", .file, "Enum Mode ModeType annotations click messages"⟩,
  ⟨"options", .file,
    "Any BadCommandLineError Callable Enum GeneratorConfig Language Options PLUGIN_GROUP " ++
    "PROGRAM_NAME ParseResult ParseStatus Path Plugin ProxySettings RunContext Sequence " ++
    "TargetLanguage _help_records annotations click dataclass dump_options entry_points " ++
    "json logger logging messages reconstruct_command_line usage"⟩,
  ⟨"plugin", .file,
    "ABC Any FrozenClassesPlugin PLUGIN_GROUP Plugin TYPE_CHECKING abstractmethod " ++
    "annotations click"⟩,
  ⟨"reader", .package,
    "ComplexType SchemaAST SchemaForest SchemaParser SchemaSet forest loader nodes parser " ++
    "schema_set __all__"⟩,
  ⟨"reader.forest", .file,
    "Any IO Iterator Path SchemaForest annotations external_refs json resolve_ref " ++
    "to_system_id urllib"⟩,
  ⟨"reader.loader", .file,
    "Diagnostic ErrorReceiver ErrorReceiverFilter Model ModelLoader PurePosixPath " ++
    "SchemaAnalyzer SchemaForest SchemaLoadError SchemaParser SchemaSet Severity " ++
    "TYPE_CHECKING annotations external_refs json logger logging resolve_ref root_name_for " ++
    "to_system_id urllib urlparse"⟩,
  ⟨"reader.nodes", .file,
    "AllOfNode Any ArrayNode ConstNode DefinitionNode EnumNode ObjectNode PrimitiveNode " ++
    "PropertyDef RefNode SchemaAST SchemaNode UnionNode annotations dataclass field"⟩,
  ⟨"reader.parser", .file,
    "AllOfNode Any ArrayNode ConstNode DefinitionNode EnumNode ErrorReceiver JSON_TYPES " ++
    "ObjectNode PrimitiveNode PropertyDef RefNode SchemaAST SchemaNode SchemaParser " ++
    "Severity UNSUPPORTED_KEYWORDS UnionNode annotations json_type_of"⟩,
  ⟨"reader.schema_set", .file,
    "AllOfNode ComplexType Iterator ObjectNode ROOT_KEY RefNode ResolvedRef SchemaAST " ++
    "SchemaNode SchemaSet annotations dataclass field resolve_ref"⟩,
  ⟨"utils", .file,
    "CS_RESERVED_KEYWORDS _NON_IDENTIFIER _WORD_PATTERN _normalize_separators " ++
    "_split_into_words enum_member_name escape_csharp_keyword keyword pascal_to_snake_case " ++
    "python_identifier re snake_to_pascal_case"⟩,
  ⟨"writer", .package,
    "CodeWriter FileCodeWriter FilterCodeWriter ProgressCodeWriter PrologCodeWriter " ++
    "ZipCodeWriter base file_writer filters unit_path zip_writer __all__"⟩,
  ⟨"writer.base", .file,
    "ABC CodeWriter FilterCodeWriter IO abstractmethod annotations io unit_path"⟩,
  ⟨"writer.file_writer", .file,
    "CodeWriter DEFAULT_MODE FileCodeWriter Path READ_ONLY_MODE _PendingFile annotations io " ++
    "logger logging os stat tempfile unit_path"⟩,
  ⟨"writer.filters", .file,
    "COMMENT_PREFIXES CodeWriter FilterCodeWriter IO ProgressCodeWriter PrologCodeWriter " ++
    "TYPE_CHECKING annotations unit_path"⟩,
  ⟨"writer.zip_writer", .file, "CodeWriter IO ZipCodeWriter annotations unit_path zipfile"⟩,
  ⟨"templates", .folder, ""⟩,
  ⟨"templates.cs", .folder, ""⟩,
  ⟨"templates.python", .folder, ""⟩]

def find? (name : String) : Option StandardModule :=
  all.find? fun standardModule => standardModule.fullName = name

end StandardModule

end Typeloom
