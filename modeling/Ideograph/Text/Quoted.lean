import Ideograph.Text.Hidden

/-! # Quoted text

Characters and strings as error messages show them: between quotation marks, with a backslash
before what would end or blur the text, and by number where nothing would be seen.
-/

namespace Ideograph.Text

/-- A number in base 16, padded with zeros. -/
def hexadecimal (width n : Nat) : List Char :=
  (Nat.toDigits 16 n).leftpad width '0'

/-- One character between the quotation marks `mark`. -/
def quoteChar (mark c : Char) : List Char :=
  if c = mark ∨ c = '\\' then ['\\', c]
  else if c = '\x00' then ['\\', '0']
  else if c = '\t' then ['\\', 't']
  else if c = '\r' then ['\\', 'r']
  else if c = '\n' then ['\\', 'n']
  else if isHidden c then "\\u\x7b".toList ++ hexadecimal 1 c.toNat ++ ['}']
  else [c]

/-- A string in double quotation marks. -/
def quoted (s : String) : String :=
  String.ofList ('"' :: (s.toList.flatMap (quoteChar '"') ++ ['"']))

/-- A character in single quotation marks. -/
def quotedChar (c : Char) : String :=
  String.ofList ('\'' :: (quoteChar '\'' c ++ ['\'']))

/-- The name of a code point, with at least four digits. -/
def codePoint (c : Char) : String :=
  "U+" ++ String.ofList ((hexadecimal 4 c.toNat).map Char.toUpper)

end Ideograph.Text
