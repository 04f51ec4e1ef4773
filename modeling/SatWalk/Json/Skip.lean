import SatWalk.Json.Token

/-! Passing over a value that nobody wants. Its shape is checked, but neither the depth of its
nesting, nor the size of its numbers, nor the pairing of surrogates in its strings. -/

namespace SatWalk.Json

inductive Bracket
  | array
  | object
  deriving DecidableEq

def skipDigits (cs : List Char) : List Char :=
  cs.dropWhile Char.isDigit

/-- At least one digit. -/
def skipSomeDigits : List Char → Except Error (List Char)
  | c :: cs => if c.isDigit then .ok (skipDigits cs) else .error .malformed
  | [] => .error .malformed

def skipExponent : List Char → Except Error (List Char)
  | c :: cs =>
    if c = 'e' ∨ c = 'E' then
      match cs with
      | '+' :: rest => skipSomeDigits rest
      | '-' :: rest => skipSomeDigits rest
      | rest => skipSomeDigits rest
    else .ok (c :: cs)
  | [] => .ok []

/-- A number without its sign. -/
def skipUnsigned (cs : List Char) : Except Error (List Char) := do
  let cs ← match cs with
    | '0' :: d :: rest => if d.isDigit then .error .malformed else .ok (d :: rest)
    | cs => skipSomeDigits cs
  let cs ← match cs with
    | '.' :: rest => skipSomeDigits rest
    | cs => .ok cs
  skipExponent cs

def skipString : (steps : List Char) → List Char → Except Error (List Char)
  | [], _ => .error .truncated
  | _ :: _, [] => .error .truncated
  | _ :: steps, c :: cs =>
    if c = '"' then .ok cs
    else if c = '\\' then
      match cs with
      | [] => .error .truncated
      | 'u' :: rest =>
        match readHex4 rest with
        | .ok (_, rest) => skipString steps rest
        | .error e => .error e
      | e :: rest => if (simpleEscape? e).isSome then skipString steps rest else .error .malformed
    else if c.toNat < 0x20 then .error .malformed
    else skipString steps cs

/-- A value that is no array or object, or the bracket that opens one. -/
def skipHead (cs : List Char) : Except Error (Option Bracket × List Char) :=
  match skipSpace cs with
  | [] => .error .truncated
  | 'n' :: cs => do return (none, (← expect "ull".toList cs).2)
  | 't' :: cs => do return (none, (← expect "rue".toList cs).2)
  | 'f' :: cs => do return (none, (← expect "alse".toList cs).2)
  | '-' :: cs => do return (none, ← skipUnsigned cs)
  | '"' :: cs => do return (none, ← skipString cs cs)
  | '[' :: cs => .ok (some .array, cs)
  | '\x7b' :: cs => .ok (some .object, cs)
  | c :: cs =>
    if c.isDigit then do return (none, ← skipUnsigned (c :: cs)) else .error .malformed

/-- A key and its colon. -/
def skipKey (cs : List Char) : Except Error (List Char) :=
  match skipSpace cs with
  | [] => .error .truncated
  | '"' :: cs => do
    let cs ← skipString cs cs
    return (← expectMark ':' cs).2
  | _ => .error .malformed

/-- What comes after a value inside open brackets, the innermost first. `fresh` tells that the
innermost bracket was opened just before. Stops where the next value starts, or at the end. -/
def skipTail : (fresh : Bool) → List Bracket → List Char →
    Except Error (List Bracket × List Char)
  | _, [], cs => .ok ([], cs)
  | fresh, b :: outer, cs =>
    let start (cs : List Char) : Except Error (List Bracket × List Char) :=
      match b with
      | .array => .ok (b :: outer, cs)
      | .object => do return (b :: outer, ← skipKey cs)
    match skipSpace cs with
    | [] => .error .truncated
    | c :: cs =>
      if c = (match b with | .array => ']' | .object => '\x7d') then
        skipTail false outer cs
      else if fresh then start (c :: cs)
      else if c = ',' then start cs
      else .error .malformed

/-- Passes over values until no bracket is open. -/
def skipOpen : (steps : List Char) → List Bracket → List Char → Except Error (List Char)
  | [], _, _ => .error .truncated
  | _ :: steps, outer, cs => do
    let (opened, cs) ← skipHead cs
    let stack := match opened with
      | some b => b :: outer
      | none => outer
    match ← skipTail opened.isSome stack cs with
    | ([], cs) => return cs
    | (stack, cs) => skipOpen steps stack cs

def skipValue : Reader Unit := fun cs => do
  return ((), ← skipOpen cs [] cs)

end SatWalk.Json
