import Typeloom.Naming.Words
import Typeloom.Unicode.Digit
import Typeloom.Unicode.Word

/-!
# Identifiers of the generated code

How a property name becomes an attribute name in Python, how a name is kept apart from the
keywords of C#, and how an enum value gives a member name.  A replaced character becomes an
underscore, a leading digit gets an underscore or a letter in front, and a keyword gets an
underscore behind or an at sign in front.
-/

namespace Typeloom

namespace Naming

def pythonKeywords : List String := [
  "False", "None", "True", "and", "as", "assert", "async", "await", "break", "class", "continue",
  "def", "del", "elif", "else", "except", "finally", "for", "from", "global", "if", "import",
  "in", "is", "lambda", "nonlocal", "not", "or", "pass", "raise", "return", "try", "while",
  "with", "yield"]

def csharpKeywords : List String := [
  "abstract", "as", "base", "bool", "break", "byte", "case", "catch", "char", "checked", "class",
  "const", "continue", "decimal", "default", "delegate", "do", "double", "else", "enum", "event",
  "explicit", "extern", "false", "finally", "fixed", "float", "for", "foreach", "goto", "if",
  "implicit", "in", "int", "interface", "internal", "is", "lock", "long", "namespace", "new",
  "null", "object", "operator", "out", "override", "params", "private", "protected", "public",
  "readonly", "ref", "return", "sbyte", "sealed", "short", "sizeof", "stackalloc", "static",
  "string", "struct", "switch", "this", "throw", "true", "try", "typeof", "uint", "ulong",
  "unchecked", "unsafe", "ushort", "using", "virtual", "void", "volatile", "while"]

/-- A text with every character that is not a word character replaced by an underscore. -/
def underscored (text : List Char) : List Char :=
  text.map fun character => if Unicode.isWordCharacter character then character else '_'

/-- A text that begins with a digit gets `mark` in front. -/
def guardDigit (mark : List Char) : List Char → List Char
  | [] => []
  | first :: rest =>
      if Unicode.isDigit first then mark ++ first :: rest else first :: rest

/-- The attribute name of a property in a Python class. -/
def attributeName (property : String) : String :=
  let replaced := underscored property.toList
  let named := if replaced.isEmpty then ['_'] else replaced
  let identifier := String.ofList (guardDigit ['_'] named)
  if pythonKeywords.contains identifier then identifier ++ "_" else identifier

/-- The name of the enum member for a text value. -/
def memberNameOfText (value : String) : String :=
  let name := constantCase value
  if name.isEmpty then "EMPTY" else String.ofList (guardDigit ['V', '_'] name.toList)

/-- The name of the enum member for a value that is not a text, given as its written form. -/
def memberNameOfWritten (written : String) : String :=
  "VALUE_" ++ String.ofList (underscored written.toList)

/-- A name as C# accepts it, with an at sign in front of a keyword. -/
def escapeKeyword (name : String) : String :=
  if csharpKeywords.contains name then "@" ++ name else name

end Naming

end Typeloom
