import SatWalk.Digest.Blake3
import SatWalk.Formula.Json
import SatWalk.Random.ChaCha
import SatWalk.Random.Xoshiro

/-! Random formulas whose clauses all have the same length. A plain formula draws all its
variables first and then all their signs. A planted one draws a model first; a literal
agrees with the model with a probability of one over the clause length, and a clause that
the model leaves unsatisfied gets one of its literals turned. -/

namespace SatWalk

/-- How large a generated formula is. -/
structure Difficulty where
  numVariables : Nat
  numClauses : Nat
  clauseLength : Nat
  deriving DecidableEq, Repr

namespace Difficulty

def defaultClauseLength : Nat := 3

open Json in
def codec : Codec Difficulty :=
  .record "Difficulty" false
    (.field ⟨"num_variables", .count "usize", none, none⟩
      (.field ⟨"num_clauses", .count "usize", none, none⟩
        (.field (.orElse "clause_length" (.count "usize") defaultClauseLength) .done)))
    (fun (numVariables, numClauses, clauseLength, _) => ⟨numVariables, numClauses, clauseLength⟩)
    (fun d => (d.numVariables, d.numClauses, d.clauseLength, ()))

inductive Error
  | badVariableCount (count : Nat)
  | zeroClauseLength
  deriving DecidableEq, Repr

def Error.message : Error → String
  | .badVariableCount count => "Invalid number of variables: " ++ toString count
  | .zeroClauseLength => "Clause length must be positive"

def check (d : Difficulty) : Except Error Unit :=
  if d.numVariables = 0 ∨ Text.literalBound - 1 ≤ d.numVariables then
    .error (.badVariableCount d.numVariables)
  else if d.clauseLength = 0 then .error .zeroClauseLength
  else .ok ()

end Difficulty

namespace Generation

inductive Error
  | difficulty (cause : Difficulty.Error)
  | formula (cause : Formula.Error)
  deriving DecidableEq, Repr

def Error.message : Error → String
  | .difficulty cause => cause.message
  | .formula cause => cause.message

variable {σ : Type} [Source σ]

/-- A variable of a formula, each equally likely. -/
def drawVar (numVariables : Nat) : Draw σ Nat := fun s => do
  let (i, s) ← Draw.uniform numVariables s
  return (i + 1, s)

/-- The first `count` runs of `length` entries. -/
def rows {α : Type} (length : Nat) : (count : Nat) → List α → List (List α)
  | 0, _ => []
  | count + 1, xs => xs.take length :: rows length count (xs.drop length)

def signed (v sign : Nat) : Literal :=
  if sign = 0 then -(v : Int) else v

/-- The clauses of a plain formula. -/
def drawPlain (d : Difficulty) : Draw σ (List Clause) := fun s => do
  reserve (max d.numClauses 1 * d.clauseLength) 1
  reserve (d.numClauses * d.clauseLength) 4
  let count := d.numClauses * d.clauseLength
  let (vars, s) ← Draw.times count (drawVar d.numVariables) s
  let (signs, s) ← Draw.times count (Draw.uniform 2) s
  let literals := List.zipWith signed vars.toList signs.toList
  reserve d.numClauses 24
  return (rows d.clauseLength d.numClauses literals, s)

/-- A literal of `v` that is true under `value` exactly if `agree`. -/
def literalFor (v : Nat) (value agree : Bool) : Literal :=
  if value = agree then v else -(v : Int)

def drawPlantedLiteral (model : Assignment) (d : Difficulty) : Draw σ Literal := fun s => do
  let (v, s) ← drawVar d.numVariables s
  let value ← model.value v
  let (agree, s) ← Draw.chance (1 / .ofNat d.clauseLength) s
  return (literalFor v value agree, s)

/-- Turns one literal so that the model makes it true. -/
def repair (model : Assignment) (c : Array Literal) : Draw σ (Array Literal) := fun s => do
  let (i, s) ← Draw.below64 c.size s
  let l ← fetch c i
  let v := Literal.var l
  let value ← model.value v
  return (← store c i (literalFor v value true), s)

def drawPlantedClause (model : Assignment) (d : Difficulty) : Draw σ Clause := fun s => do
  reserve d.clauseLength 4
  let (c, s) ← Draw.times d.clauseLength (drawPlantedLiteral model d) s
  if ← model.satisfiesClause c.toList then return (c.toList, s)
  else
    let (c, s) ← repair model c s
    return (c.toList, s)

/-- A model and the clauses of a formula that it satisfies. -/
def drawPlanted (d : Difficulty) : Draw σ (Assignment × List Clause) := fun s => do
  let (model, s) ← Assignment.draw d.numVariables s
  reserve d.numClauses 24
  let (clauses, s) ← Draw.times d.numClauses (drawPlantedClause model d) s
  return ((model, clauses.toList), s)

def checked {α : Type} {ε : Type} (wrap : ε → Error) : Except ε α → Attempt Error α
  | .ok x => return x
  | .error e => throw (wrap e)

/-- A plain formula from a source in a given state. -/
def plainFrom (d : Difficulty) (s : σ) : Attempt Error Formula := do
  checked .difficulty d.check
  let (clauses, _) ← drawPlain d s
  checked .formula (Formula.ofClauses d.numVariables clauses)

/-- A formula with a model that satisfies it, from a source in a given state. -/
def plantedFrom (d : Difficulty) (s : σ) : Attempt Error (Formula × Assignment) := do
  checked .difficulty d.check
  let ((model, clauses), _) ← drawPlanted d s
  let f ← checked .formula (Formula.ofClauses d.numVariables clauses)
  return (f, model)

/-- The source that a seed stands for. -/
def sourceOf (seed : Seed) : Xoshiro :=
  .ofSeed (ChaCha.ofSeed seed).drawSeed

def ofSeed (seed : Seed) (d : Difficulty) (planted : Bool) :
    Attempt Error (Formula × Option Assignment) := do
  if planted then
    let (f, model) ← plantedFrom d (sourceOf seed)
    return (f, some model)
  else return (← plainFrom d (sourceOf seed), none)

def ofText (seed : String) (d : Difficulty) (planted : Bool) :
    Attempt Error (Formula × Option Assignment) :=
  ofSeed (Seed.ofText seed) d planted

end Generation

end SatWalk
