import SatWalk.Random.ChaCha
import SatWalk.Walk.Search

/-! Solving with settings that come as JSON members. The member `seed` seeds the source of
random words, and the others are the settings of the search. -/

namespace SatWalk.Challenge

open Json

inductive Error
  | badSeed (value : Value)
  | badSettings (cause : Mismatch)
  | config (cause : Config.Error)
  | inconsistent (flips : Nat)

def Error.message : Error → String
  | .badSeed value => "Invalid seed: " ++ value.compact
  | .badSettings cause => "Invalid hyperparameters: " ++ cause.message
  | .config cause => cause.message
  | .inconsistent flips => "Search became inconsistent after " ++ toString flips ++ " flips"

def seedOf : Value → Except Error Nat
  | .number (.whole z) =>
    if 0 ≤ z ∧ z < Text.countBound then .ok z.toNat
    else .error (.badSeed (.number (.whole z)))
  | v => .error (.badSeed v)

/-- The settings and the seed that the members give. -/
def settings (members : List (String × Value)) : Except Error (Config × Nat) := do
  let (seed, rest) := takeMember "seed" members
  let seed ← match seed with
    | some v => seedOf v
    | none => .ok 0
  match Config.codec.decode (.object rest) with
  | .ok c => return (c, seed)
  | .error e => throw (.badSettings e)

/-- A solution, or none if all flips were spent. -/
def solve (f : Formula) (members : Option (List (String × Value))) :
    Attempt Error (Option Assignment) := do
  let (c, seed) ← ExceptT.mk (.ok (match members with
    | some members => settings members
    | none => .ok ({}, 0)))
  let r ← (SatWalk.solve f c (ChaCha.ofSeed (.ofNat seed))).adapt .config
  match r.outcome with
  | .satisfied => return r.assignment
  | .exhausted => return none
  | .inconsistent => throw (.inconsistent r.flips)

end SatWalk.Challenge
