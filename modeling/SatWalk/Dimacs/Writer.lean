import SatWalk.Formula.Basic

/-! DIMACS text of a formula: a problem line with the two counts, then a line for each clause,
its literals followed by a zero. -/

namespace SatWalk.Dimacs

def writeClause (c : Clause) : List Char :=
  c.flatMap (fun l => Text.writeInteger l ++ [' ']) ++ ['0', '\n']

def writeProblem (numVariables numClauses : Nat) : List Char :=
  "p cnf ".toList ++ Text.writeNatural numVariables ++ ' ' :: Text.writeNatural numClauses ++
    ['\n']

def write (f : Formula) : String :=
  String.ofList (writeProblem f.numVariables f.numClauses ++ f.clauses.toList.flatMap writeClause)

end SatWalk.Dimacs
