import SatWalk.Json.Token

/-! Reading a whole JSON value. Arrays and objects nest to a limited depth. -/

namespace SatWalk.Json

/-- How deep arrays and objects may nest. -/
def depthLimit : Nat := 127

/-- The items of an array, up to and including its closing bracket. -/
def readItems {α : Type} (item : Reader α) :
    (steps : List Char) → (first : Bool) → (done : List α) → Reader (List α)
  | [], _, _, _ => .error .truncated
  | _ :: steps, first, done, cs => do
    match ← nextItem first cs with
    | none =>
      let (_, cs) ← expectMark ']' cs
      return (done.reverse, cs)
    | some cs =>
      let (x, cs) ← item cs
      readItems item steps false (x :: done) cs

/-- The members of an object, up to and including its closing brace. -/
def readMembers (value : Reader Value) :
    (steps : List Char) → (first : Bool) → (done : List (String × Value)) →
      Reader (List (String × Value))
  | [], _, _, _ => .error .truncated
  | _ :: steps, first, done, cs => do
    match ← nextKey first cs with
    | none =>
      let (_, cs) ← expectMark '\x7d' cs
      return (mergeMembers done.reverse, cs)
    | some cs =>
      let (key, cs) ← readString cs
      let (_, cs) ← expectMark ':' cs
      let (v, cs) ← value cs
      readMembers value steps false ((key, v) :: done) cs

/-- A value whose arrays and objects are read by the given readers after their bracket. -/
def readValueWith (items : Reader (List Value)) (members : Reader (List (String × Value))) :
    Reader Value := fun cs =>
  match skipSpace cs with
  | [] => .error .truncated
  | 'n' :: cs => do
    let (_, cs) ← expect "ull".toList cs
    return (.null, cs)
  | 't' :: cs => do
    let (_, cs) ← expect "rue".toList cs
    return (.boolean true, cs)
  | 'f' :: cs => do
    let (_, cs) ← expect "alse".toList cs
    return (.boolean false, cs)
  | '"' :: cs => do
    let (text, cs) ← readString cs
    return (.string text, cs)
  | '[' :: cs => do
    let (xs, cs) ← items cs
    return (.array xs, cs)
  | '\x7b' :: cs => do
    let (ms, cs) ← members cs
    return (.object ms, cs)
  | c :: cs =>
    if c = '-' ∨ c.isDigit then do
      let (n, cs) ← readNumber (c :: cs)
      return (.number n, cs)
    else .error .malformed

def tooDeep {α : Type} : Reader α := fun _ => .error .malformed

/-- Reads a value with at most `depth` levels of arrays and objects. -/
def readValue : (depth : Nat) → Reader Value
  | 0 => readValueWith tooDeep tooDeep
  | depth + 1 =>
    readValueWith (fun cs => readItems (readValue depth) cs true [] cs)
      (fun cs => readMembers (readValue depth) cs true [] cs)

/-- Nothing but spaces may follow a value. -/
def finish {α : Type} : α × List Char → Except Error α
  | (x, cs) => if skipSpace cs = [] then .ok x else .error .malformed

def Value.parse (text : String) : Except Error Value :=
  readValue depthLimit text.toList >>= finish

end SatWalk.Json
