import Corridor.Text.Printable

/-!
# Quoted Texts

How a text is shown in a message: between single quotes, or between double quotes when it holds
a single quote and no double one. The quote and the backslash are escaped, line feed, carriage
return and tab have letters, and any other character that is not printable is written by its
code point in two, four or eight hexadecimal digits.
-/

namespace Corridor.Text

/-- The lowest `count` hexadecimal digits of a number. -/
def hexDigits (count n : Nat) : List Char :=
  let ds := Nat.toDigits 16 n
  List.replicate (count - ds.length) '0' ++ ds

/-- The quote that a text is put between. -/
def quoteFor (cs : List Char) : Char :=
  if cs.contains '\'' && !cs.contains '"' then '"' else '\''

/-- One character inside the given quotes. -/
def escapeChar (quote c : Char) : List Char :=
  if c = quote || c = '\\' then ['\\', c]
  else if c = '\n' then ['\\', 'n']
  else if c = '\r' then ['\\', 'r']
  else if c = '\t' then ['\\', 't']
  else if isPrintable c then [c]
  else if c.toNat < 0x100 then '\\' :: 'x' :: hexDigits 2 c.toNat
  else if c.toNat < 0x10000 then '\\' :: 'u' :: hexDigits 4 c.toNat
  else '\\' :: 'U' :: hexDigits 8 c.toNat

/-- A text between quotes. -/
def quoted (s : String) : String :=
  let quote := quoteFor s.toList
  String.ofList (quote :: (s.toList.flatMap (escapeChar quote) ++ [quote]))

end Corridor.Text
