import SatWalk.Formula.Basic
import SatWalk.Random.Source

/-! Truth values of variables, and what they make of literals, clauses and formulas. Values are
looked up as far as needed only: a clause ends at its first true literal, a formula at its
first false clause. -/

namespace SatWalk

/-- The value of variable `i + 1` stands at index `i`. -/
structure Assignment where
  values : Array Bool
  deriving DecidableEq, Repr, Inhabited

/-- The place of a variable in arrays. -/
def slotOf : (var : Nat) → Checked Nat
  | 0 => .error .arithmeticOverflow
  | slot + 1 => .ok slot

namespace Assignment

def value (a : Assignment) (var : Nat) : Checked Bool := do
  fetch a.values (← slotOf var)

def flip (a : Assignment) (var : Nat) : Checked Assignment := do
  let slot ← slotOf var
  let b ← fetch a.values slot
  return ⟨← store a.values slot (!b)⟩

/-- A value for each variable, drawn in order. -/
def draw {σ : Type} [Source σ] (numVariables : Nat) : Draw σ Assignment := fun s => do
  reserve numVariables 1
  let (values, s) := Draw.bits numVariables s
  return (⟨values⟩, s)

/-- Draws every value anew. -/
def redraw {σ : Type} [Source σ] (a : Assignment) (s : σ) : Assignment × σ :=
  let (values, s) := Draw.bits a.values.size s
  (⟨values⟩, s)

def makesTrue (a : Assignment) (l : Literal) : Checked Bool := do
  let b ← a.value (Literal.var l)
  return if 0 < l then b else !b

end Assignment

/-- Whether some entry passes the test; later entries are not tested. -/
def anyChecked {α : Type} (test : α → Checked Bool) : List α → Checked Bool
  | [] => .ok false
  | x :: xs => do
    if ← test x then return true
    anyChecked test xs

/-- The position of the first entry that fails the test; later entries are not tested. -/
def firstFailing {α : Type} (test : α → Checked Bool) :
    (position : Nat) → List α → Checked (Option Nat)
  | _, [] => .ok none
  | position, x :: xs => do
    if ← test x then firstFailing test (position + 1) xs
    else return some position

namespace Assignment

def satisfiesClause (a : Assignment) (c : Clause) : Checked Bool :=
  anyChecked a.makesTrue c

/-- The first clause that no literal makes true. -/
def firstUnsatisfied (a : Assignment) (f : Formula) : Checked (Option Nat) :=
  firstFailing a.satisfiesClause 0 f.clauses.toList

def satisfies (a : Assignment) (f : Formula) : Checked Bool := do
  return (← a.firstUnsatisfied f).isNone

/-- Why an assignment is no solution. -/
inductive Rejection
  | wrongLength (expected actual : Nat)
  | unsatisfied (clause : Nat)
  deriving DecidableEq, Repr

def Rejection.message : Rejection → String
  | .wrongLength expected actual =>
    "Invalid number of variables. Expected: " ++ toString expected ++ ", Actual: " ++
      toString actual
  | .unsatisfied clause => "Clause '" ++ toString clause ++ "' not satisfied"

/-- Accepts the assignments with the declared number of values that satisfy every clause. -/
def verify (a : Assignment) (f : Formula) : Attempt Rejection Unit := do
  if a.values.size ≠ f.numVariables then
    throw (.wrongLength f.numVariables a.values.size)
  match ← a.firstUnsatisfied f with
  | some clause => throw (.unsatisfied clause)
  | none => return ()

end Assignment

end SatWalk
