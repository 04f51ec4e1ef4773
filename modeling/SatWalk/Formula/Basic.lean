import SatWalk.Fault
import SatWalk.Text.WholeNumber

/-! Formulas in conjunctive normal form. Variables are numbered from one, and a literal is a
variable or its negative. A formula is valid if its clauses are nonempty and use only
declared variables; one that is not valid can be held, and validation names what comes
first in reading order. -/

namespace SatWalk

abbrev Literal := Int

/-- The variable of a literal; zero belongs to none. -/
def Literal.var (l : Literal) : Nat :=
  l.natAbs

abbrev Clause := List Literal

structure Formula where
  numVariables : Nat
  clauses : Array Clause
  deriving DecidableEq, Repr, Inhabited

namespace Formula

def numClauses (f : Formula) : Nat :=
  f.clauses.size

inductive Error
  | emptyClause (clause : Nat)
  | zeroLiteral (clause : Nat)
  | literalOutOfRange (clause : Nat) (literal : Literal) (numVariables : Nat)
  deriving DecidableEq, Repr

def Error.message : Error → String
  | .emptyClause clause => "clause " ++ toString clause ++ " is empty"
  | .zeroLiteral clause => "clause " ++ toString clause ++ " contains the literal 0"
  | .literalOutOfRange clause literal numVariables =>
    "clause " ++ toString clause ++ " uses literal " ++ toString literal ++ " but only " ++
      toString numVariables ++ " variables are declared"

def checkLiterals (numVariables clause : Nat) : List Literal → Except Error Unit
  | [] => .ok ()
  | l :: ls =>
    if l = 0 then .error (.zeroLiteral clause)
    else if numVariables < Literal.var l then
      .error (.literalOutOfRange clause l numVariables)
    else checkLiterals numVariables clause ls

def checkClauses (numVariables : Nat) : (clause : Nat) → List Clause → Except Error Unit
  | _, [] => .ok ()
  | clause, c :: cs => do
    if c = [] then throw (.emptyClause clause)
    checkLiterals numVariables clause c
    checkClauses numVariables (clause + 1) cs

def validate (f : Formula) : Except Error Unit :=
  checkClauses f.numVariables 0 f.clauses.toList

/-- A valid formula. -/
def ofClauses (numVariables : Nat) (clauses : List Clause) : Except Error Formula := do
  let f : Formula := ⟨numVariables, clauses.toArray⟩
  f.validate
  return f

end Formula

end SatWalk
