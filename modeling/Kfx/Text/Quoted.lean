import Kfx.Text.GraphemeExtend
import Kfx.Text.Unprintable

/-!
# Text shown between quotes

Texts stand so in diagnostics. The quote in use, the backslash and the common controls are written
with a backslash, characters that cannot be seen alone by their code point.
-/
namespace Kfx.Text

/-- The code point in lower-case hexadecimal between braces, `\u{301}`. -/
def codePoint (c : Char) : List Char :=
  ['\\', 'u', '\x7b'] ++ Nat.toDigits 16 c.toNat ++ ['\x7d']

/-- How one character stands between two `quote` characters. -/
def shownChar (quote c : Char) : List Char :=
  if c = '\x00' then ['\\', '0']
  else if c = '\t' then ['\\', 't']
  else if c = '\r' then ['\\', 'r']
  else if c = '\n' then ['\\', 'n']
  else if c = '\\' then ['\\', '\\']
  else if c = quote then ['\\', c]
  else if joinsPrevious c || isUnprintable c then codePoint c
  else [c]

def quoteChar (c : Char) : String :=
  String.ofList ('\'' :: shownChar '\'' c ++ ['\''])

def quoteString (s : String) : String :=
  String.ofList ('"' :: s.toList.flatMap (shownChar '"') ++ ['"'])

end Kfx.Text
