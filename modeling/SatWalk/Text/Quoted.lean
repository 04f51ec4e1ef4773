import SatWalk.Text.Visible

/-! Text in double quotes as messages show it: the quote, the backslash and the usual
controls are escaped by a letter, every other character that does not show by itself is
given by its code point. -/

namespace SatWalk.Text

/-- Lower-case hexadecimal digits without leading zeros. -/
def codePoint (c : Char) : List Char :=
  Nat.toDigits 16 c.toNat

def quoteChar (c : Char) : List Char :=
  if c = '\x00' then ['\\', '0']
  else if c = '\t' then ['\\', 't']
  else if c = '\r' then ['\\', 'r']
  else if c = '\n' then ['\\', 'n']
  else if c = '"' then ['\\', '"']
  else if c = '\\' then ['\\', '\\']
  else if isVisible c then [c]
  else ['\\', 'u', '\x7b'] ++ codePoint c ++ ['\x7d']

def quote (text : String) : String :=
  String.ofList (['"'] ++ text.toList.flatMap quoteChar ++ ['"'])

end SatWalk.Text
