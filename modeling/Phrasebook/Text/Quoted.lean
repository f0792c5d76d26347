/-
Quoted text: a string between double quotes on one line, in which the characters that would end the
quotation, break the line or leave no mark are written as escapes.
-/
import Phrasebook.Text.Hex
import Phrasebook.Text.Unprintable

namespace Phrasebook.Text

/-- The characters written as a backslash and one letter, with that letter. -/
def shortEscapes : List (Char × Char) :=
  [('\x00', '0'), ('\t', 't'), ('\n', 'n'), ('\r', 'r'), ('"', '"'), ('\\', '\\')]

/-- The quoted form of one character: a short escape, or the code point in braces for a character
that does not print on its own, or the character itself. -/
def escape (c : Char) : List Char :=
  match shortEscapes.lookup c with
  | some letter => ['\\', letter]
  | none =>
    if isUnprintable c then '\\' :: 'u' :: '\x7b' :: (hexDigits c.toNat ++ ['\x7d']) else [c]

/-- The text between double quotes, each character in its quoted form. -/
def quote (s : String) : String :=
  String.ofList ('"' :: (s.toList.flatMap escape ++ ['"']))

end Phrasebook.Text
