import SatWalk.Json.Printer

/-! Canonical text: the members of every object are sorted by key, so that values which differ
only in the order of members have one text. -/

namespace SatWalk.Json

mutual

def Value.sorted : Value → Value
  | .array items => .array (sortItems items)
  | .object members => .object ((sortValues members).mergeSort fun a b => a.1 ≤ b.1)
  | value => value

def sortItems : List Value → List Value
  | [] => []
  | item :: rest => item.sorted :: sortItems rest

/-- The members in their order, with their values sorted. -/
def sortValues : List (String × Value) → List (String × Value)
  | [] => []
  | (key, value) :: rest => (key, value.sorted) :: sortValues rest

end

def Value.canonical (v : Value) : String :=
  v.sorted.compact

def Value.canonicalIndented (v : Value) : String :=
  v.sorted.indented

end SatWalk.Json
