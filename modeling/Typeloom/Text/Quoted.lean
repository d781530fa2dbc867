import Typeloom.Text.Hexadecimal
import Typeloom.Unicode.Printable

/-!
# Quoted texts

A text is quoted in messages between apostrophes, or between double quotes if it holds an
apostrophe and no double quote.  The quote, the backslash and every character that cannot be
shown are written as escapes.
-/

namespace Typeloom

namespace Text

/-- The quote that needs the fewest escapes: the double quote only for a text that holds an
apostrophe and no double quote. -/
def quoteFor (text : List Char) : Char :=
  if text.contains '\'' && !text.contains '\"' then '\"' else '\''

def quotedCharacter (quote character : Char) : List Char :=
  if character = quote || character = '\\' then ['\\', character]
  else if character = '\n' then ['\\', 'n']
  else if character = '\r' then ['\\', 'r']
  else if character = '\t' then ['\\', 't']
  else if Unicode.isPrintable character then [character]
  else if character.toNat < 0x100 then '\\' :: 'x' :: hexadecimal 2 character.toNat
  else if character.toNat < 0x10000 then '\\' :: 'u' :: hexadecimal 4 character.toNat
  else '\\' :: 'U' :: hexadecimal 8 character.toNat

def quoted (text : String) : String :=
  let characters := text.toList
  let quote := quoteFor characters
  String.ofList (quote :: characters.flatMap (quotedCharacter quote) ++ [quote])

end Text

end Typeloom
