/-
Text in double quotes, as fault messages and tagged scalars show it.

Quotes and backslashes get a backslash, four control characters their letter, every other character that is not
printable its code point in braces; an apostrophe needs no escape between double quotes.
-/
import DynAssign.Text.Printable

namespace DynAssign

/-- one character between double quotes -/
def escape (c : Char) : List Char :=
  if c = '"' ∨ c = '\\' then ['\\', c]
  else if c = '\t' then ['\\', 't']
  else if c = '\r' then ['\\', 'r']
  else if c = '\n' then ['\\', 'n']
  else if c.toNat = 0 then ['\\', '0']
  else if isPrintable c then [c]
  else ['\\', 'u', '\x7b'] ++ Nat.toDigits 16 c.toNat ++ ['\x7d']

/-- a string in double quotes -/
def quoted (s : String) : String := String.ofList ('"' :: s.toList.flatMap escape ++ ['"'])

end DynAssign
