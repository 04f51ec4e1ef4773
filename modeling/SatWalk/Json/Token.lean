import SatWalk.Json.Error

/-! The parts JSON text is made of: spaces, literal names, numbers and strings. A reader takes
what it reads off the front of the text. A reader that repeats a step goes on for one step per
character at most; it is given the text a second time to count them off. -/

namespace SatWalk.Json

abbrev Reader (α : Type) := List Char → Except Error (α × List Char)

def isSpace (c : Char) : Bool :=
  c = ' ' || c = '\n' || c = '\t' || c = '\r'

def skipSpace (cs : List Char) : List Char :=
  cs.dropWhile isSpace

/-- Takes exactly the given characters off the text. -/
def expect : List Char → Reader Unit
  | [], cs => .ok ((), cs)
  | _ :: _, [] => .error .truncated
  | e :: es, c :: cs => if c = e then expect es cs else .error .malformed

/-! ### Numbers

A number with a fraction or an exponent, and a whole number that has no 64 bits, is read by
scaling: as many leading digits as fit in 64 bits are converted and then multiplied or
divided by a power of ten, each step rounded. -/

/-- The digits of a scaled number that are read so far. -/
structure Scaled where
  significand : Nat := 0
  exponent : Int := 0

def digitValue (c : Char) : Nat :=
  c.toNat - '0'.toNat

/-- Appends digits while the significand has 64 bits; the rest is left over. -/
def appendDigits (significand : Nat) : List Char → Nat × List Char
  | [] => (significand, [])
  | c :: cs =>
    let longer := 10 * significand + digitValue c
    if longer < Text.countBound then appendDigits longer cs else (significand, c :: cs)

/-- Scales down by steps until a power of ten in range is left. -/
def scale (x : Float) (exponent : Int) : Option Float :=
  if exponent.natAbs ≤ 308 then
    let power := Binary64.powerOfTen exponent.natAbs
    if 0 ≤ exponent then some (x * power) else some (x / power)
  else if x == 0 then some x
  else if 0 ≤ exponent then none
  else scale (x / Binary64.powerOfTen 308) (exponent + 308)
termination_by (-exponent).toNat
decreasing_by omega

def realNumber (negative : Bool) (n : Scaled) : Except Error Number :=
  match scale (.ofNat n.significand) n.exponent with
  | none => .error .malformed
  | some x =>
    let x := if negative then -x else x
    if h : x.isFinite = true then .ok (.real x h) else .error .malformed

/-- A whole number; a negative zero, or one without 64 bits, is not whole. -/
def wholeNumber (negative : Bool) (n : Nat) : Except Error Number :=
  if !negative then .ok (.whole n)
  else if 0 < n ∧ n ≤ 0x8000000000000000 then .ok (.whole (-n))
  else realNumber true ⟨n, 0⟩

/-- The exponent that may follow a number. -/
def readExponent : Reader (Option Int)
  | c :: cs =>
    if c = 'e' ∨ c = 'E' then
      let (negative, digits) := match cs with
        | '-' :: rest => (true, rest)
        | '+' :: rest => (false, rest)
        | rest => (false, rest)
      match digits with
      | [] => .error .truncated
      | d :: rest =>
        if d.isDigit then
          let n := Nat.ofDigitChars 10 ((d :: rest).takeWhile Char.isDigit) 0
          .ok (some (if negative then -n else n), rest.dropWhile Char.isDigit)
        else .error .malformed
    else .ok (none, c :: cs)
  | [] => .ok (none, [])

/-- The digits after the point, if there is a point. -/
def readFraction : Reader (Option (List Char))
  | '.' :: cs =>
    match cs with
    | [] => .error .truncated
    | d :: _ =>
      if d.isDigit then .ok (some (cs.takeWhile Char.isDigit), cs.dropWhile Char.isDigit)
      else .error .malformed
  | cs => .ok (none, cs)

/-- The digits before the point: a zero alone, or digits that start with another one. -/
def readWhole : Reader (List Char)
  | [] => .error .truncated
  | c :: cs =>
    if c = '0' then
      match cs with
      | d :: _ => if d.isDigit then .error .malformed else .ok (['0'], cs)
      | [] => .ok (['0'], [])
    else if c.isDigit then .ok (c :: cs.takeWhile Char.isDigit, cs.dropWhile Char.isDigit)
    else .error .malformed

def readUnsigned (negative : Bool) : Reader Number := fun cs => do
  let (whole, cs) ← readWhole cs
  let (fraction, cs) ← readFraction cs
  let (exponent, cs) ← readExponent cs
  let (significand, left) := appendDigits 0 whole
  if fraction.isNone && exponent.isNone && left = [] then
    let n ← wholeNumber negative significand
    return (n, cs)
  else
    let places := fraction.getD []
    let (significand, dropped) := appendDigits significand places
    let n ← realNumber negative
      ⟨significand, left.length - (places.length - dropped.length : Nat) + exponent.getD 0⟩
    return (n, cs)

def readNumber : Reader Number
  | '-' :: cs => readUnsigned true cs
  | cs => readUnsigned false cs

/-! ### Strings -/

/-- Four hexadecimal digits. Fewer than four bytes of text are too few, whatever they are. -/
def readHex4 (cs : List Char) : Except Error (Nat × List Char) :=
  let four := cs.take 4
  if four.foldl (fun size c => size + c.utf8Size) 0 < 4 then .error .truncated
  else
    match four.mapM Text.hexValue? with
    | some digits => .ok (digits.foldl (fun n d => 16 * n + d) 0, cs.drop 4)
    | none => .error .malformed

def isHighSurrogate (n : Nat) : Bool := 0xd800 ≤ n && n ≤ 0xdbff

def isLowSurrogate (n : Nat) : Bool := 0xdc00 ≤ n && n ≤ 0xdfff

/-- The character of a code point escape; one above the basic plane takes two escapes. -/
def readCodePoint : Reader Char := fun cs => do
  let (n, cs) ← readHex4 cs
  if isLowSurrogate n then .error .malformed
  else if isHighSurrogate n then
    match cs with
    | [] => .error .truncated
    | '\\' :: [] => .error .truncated
    | '\\' :: 'u' :: cs =>
      let (m, cs) ← readHex4 cs
      if isLowSurrogate m then
        return (Char.ofNat (0x10000 + (n - 0xd800) * 0x400 + (m - 0xdc00)), cs)
      else .error .malformed
    | _ => .error .malformed
  else return (Char.ofNat n, cs)

/-- The character that a single letter after the backslash stands for. -/
def simpleEscape? : Char → Option Char
  | '"' => some '"'
  | '\\' => some '\\'
  | '/' => some '/'
  | 'b' => some '\x08'
  | 'f' => some '\x0c'
  | 'n' => some '\n'
  | 'r' => some '\r'
  | 't' => some '\t'
  | _ => none

def readEscape : Reader Char
  | [] => .error .truncated
  | 'u' :: cs => readCodePoint cs
  | c :: cs =>
    match simpleEscape? c with
    | some e => .ok (e, cs)
    | none => .error .malformed

/-- The rest of a string after its opening quote, `done` being read already in reverse. -/
def readStringBody : (steps : List Char) → (done : List Char) → Reader String
  | [], _, _ => .error .truncated
  | _ :: _, _, [] => .error .truncated
  | _ :: steps, done, c :: cs =>
    if c = '"' then .ok (String.ofList done.reverse, cs)
    else if c = '\\' then
      match readEscape cs with
      | .ok (e, cs) => readStringBody steps (e :: done) cs
      | .error e => .error e
    else if c.toNat < 0x20 then .error .malformed
    else readStringBody steps (c :: done) cs

def readString : Reader String := fun cs =>
  readStringBody cs [] cs

/-! ### Punctuation -/

/-- Where the next item of an array starts, or nothing if its closing bracket comes. -/
def nextItem (first : Bool) (cs : List Char) : Except Error (Option (List Char)) :=
  match skipSpace cs with
  | [] => .error .truncated
  | ']' :: _ => .ok none
  | c :: cs =>
    if first then .ok (some (c :: cs))
    else if c = ',' then
      match skipSpace cs with
      | [] => .error .truncated
      | ']' :: _ => .error .malformed
      | cs => .ok (some cs)
    else .error .malformed

/-- Where the next key of an object starts, after its quote. -/
def nextKey (first : Bool) (cs : List Char) : Except Error (Option (List Char)) :=
  match skipSpace cs with
  | [] => .error .truncated
  | '\x7d' :: _ => .ok none
  | c :: cs =>
    if first then
      if c = '"' then .ok (some cs) else .error .malformed
    else if c = ',' then
      match skipSpace cs with
      | [] => .error .truncated
      | '"' :: cs => .ok (some cs)
      | _ => .error .malformed
    else .error .malformed

/-- Takes one punctuation mark, with the spaces before it. -/
def expectMark (mark : Char) : Reader Unit := fun cs =>
  expect [mark] (skipSpace cs)

end SatWalk.Json
