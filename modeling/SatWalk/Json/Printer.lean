import SatWalk.Json.Value
import SatWalk.Decimal.Layout

/-! Written forms of JSON values: compact, and indented by two spaces a level. -/

namespace SatWalk.Json

/-- Numbers from `1e-5` up to below `1e16` are written in places; a tie goes to the even digit. -/
def numberLayout : Decimal.Layout where
  placed := some (-5, 15)
  pointed := true
  tie := .even
  notANumber := "NaN"
  infinity := "inf"

def Number.write : Number → List Char
  | .whole z => Text.writeInteger z
  | .real x _ => numberLayout.write x

/-- The quote, the backslash and control characters are escaped; all else stands as it is. -/
def escape (c : Char) : List Char :=
  if c = '"' then ['\\', '"']
  else if c = '\\' then ['\\', '\\']
  else if c = '\x08' then ['\\', 'b']
  else if c = '\x0c' then ['\\', 'f']
  else if c = '\n' then ['\\', 'n']
  else if c = '\r' then ['\\', 'r']
  else if c = '\t' then ['\\', 't']
  else if c.toNat < 0x20 then
    ['\\', 'u', '0', '0', Text.hexDigit (c.toNat / 16), Text.hexDigit c.toNat]
  else [c]

def writeString (text : String) : List Char :=
  '"' :: text.toList.flatMap escape ++ ['"']

def writeBoolean (value : Bool) : List Char :=
  (if value then "true" else "false").toList

/-- What stands between the parts of an array or object at a given level of nesting. -/
structure Spacing where
  /-- Before the first part and after each comma. -/
  inner : Nat → List Char
  /-- Before the closing bracket. -/
  outer : Nat → List Char
  /-- After the colon of a member. -/
  colon : List Char

def compact : Spacing where
  inner _ := []
  outer _ := []
  colon := []

def lineBreak (level : Nat) : List Char :=
  '\n' :: List.replicate (2 * level) ' '

def indented : Spacing where
  inner level := lineBreak (level + 1)
  outer level := lineBreak level
  colon := [' ']

mutual

def Value.write (s : Spacing) (level : Nat) : Value → List Char
  | .null => "null".toList
  | .boolean value => writeBoolean value
  | .number value => value.write
  | .string text => writeString text
  | .array [] => ['[', ']']
  | .array (item :: rest) =>
    '[' :: s.inner level ++ item.write s (level + 1) ++ writeItems s level rest ++
      s.outer level ++ [']']
  | .object [] => ['\x7b', '\x7d']
  | .object ((key, value) :: rest) =>
    '\x7b' :: s.inner level ++ writeString key ++ ':' :: s.colon ++ value.write s (level + 1) ++
      writeMembers s level rest ++ s.outer level ++ ['\x7d']

/-- The items after the first. -/
def writeItems (s : Spacing) (level : Nat) : List Value → List Char
  | [] => []
  | item :: rest => ',' :: s.inner level ++ item.write s (level + 1) ++ writeItems s level rest

/-- The members after the first. -/
def writeMembers (s : Spacing) (level : Nat) : List (String × Value) → List Char
  | [] => []
  | (key, value) :: rest =>
    ',' :: s.inner level ++ writeString key ++ ':' :: s.colon ++ value.write s (level + 1) ++
      writeMembers s level rest

end

def Value.compact (v : Value) : String :=
  String.ofList (v.write Json.compact 0)

def Value.indented (v : Value) : String :=
  String.ofList (v.write Json.indented 0)

end SatWalk.Json
