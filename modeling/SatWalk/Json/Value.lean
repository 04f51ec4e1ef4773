import Std.Data.HashMap
import Std.Data.HashSet

/-! JSON values. Whole numbers stay apart from binary floating-point ones, and only numbers
that have a value are held. The members of an object keep the order in which their keys
first came. -/

namespace SatWalk.Json

inductive Number
  | whole (value : Int)
  | real (value : Float) (finite : value.isFinite = true)
  deriving DecidableEq, Repr

inductive Value
  | null
  | boolean (value : Bool)
  | number (value : Number)
  | string (text : String)
  | array (items : List Value)
  | object (members : List (String × Value))
  deriving Repr, Inhabited

/-- A number without a value is written as null. -/
def Value.ofFloat (x : Float) : Value :=
  if h : x.isFinite = true then .number (.real x h) else .null

def Value.ofInt (z : Int) : Value :=
  .number (.whole z)

/-- The first member of each key, with the values that the members have in `latest`. `seen` holds
the keys of the members before. -/
def firstMembers (latest : Std.HashMap String Value) :
    (seen : Std.HashSet String) → List (String × Value) → List (String × Value)
  | _, [] => []
  | seen, (key, value) :: rest =>
    if key ∈ seen then firstMembers latest seen rest
    else (key, latest.getD key value) :: firstMembers latest (seen.insert key) rest

/-- Joins the members with equal keys: the place is that of the first of them, the value that of
the last. -/
def mergeMembers (members : List (String × Value)) : List (String × Value) :=
  firstMembers (members.foldl (fun latest (key, value) => latest.insert key value) ∅) ∅ members

def findMember? (key : String) (members : List (String × Value)) : Option Value :=
  (members.find? (·.1 = key)).map (·.2)

def Value.member? (key : String) : Value → Option Value
  | .object members => findMember? key members
  | _ => none

/-- Takes the member with the given key out; the last member moves into its place. -/
def takeMember (key : String) (members : List (String × Value)) :
    Option Value × List (String × Value) :=
  match members.findIdx? (·.1 = key) with
  | none => (none, members)
  | some i =>
    let rest := members.dropLast
    (findMember? key members,
      match members.getLast? with
      | some last => if i < rest.length then rest.set i last else rest
      | none => rest)

end SatWalk.Json
