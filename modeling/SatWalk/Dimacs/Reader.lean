import SatWalk.Formula.Basic
import SatWalk.Text.Blank

/-! Reading DIMACS text from bytes, line by line. A line whose first character that is not blank
is `c` is a comment, one with `%` ends the formula, one with `p` declares the counts, and
the words of any other line are literals; a zero ends a clause, on whatever line it
stands. Without a declaration the largest variable gives the number of variables. -/

namespace SatWalk.Dimacs

inductive Error
  | unreadable (linesBefore : Nat)
  | badProblem (line : Nat) (content : String)
  | badLiteral (line : Nat) (word : String)
  | invalid (cause : Formula.Error)
  deriving DecidableEq, Repr

def Error.message : Error → String
  | .unreadable linesBefore =>
    "failed to read line " ++ toString linesBefore ++ ": stream did not contain valid UTF-8"
  | .badProblem line content =>
    "malformed problem line " ++ toString line ++ ": '" ++ content ++ "'"
  | .badLiteral line word => "invalid literal '" ++ word ++ "' on line " ++ toString line
  | .invalid cause => cause.message

/-- A declared number of clauses that is not the number found. -/
structure Miscount where
  declared : Nat
  found : Nat
  deriving DecidableEq, Repr

def Miscount.message (m : Miscount) : String :=
  "problem line declares " ++ toString m.declared ++ " clauses, found " ++ toString m.found

/-- What is read so far; clauses and literals stand in reverse. -/
structure Progress where
  header : Option (Nat × Nat) := none
  clauses : List Clause := []
  clause : List Literal := []
  largest : Nat := 0
  deriving DecidableEq, Repr

inductive LineKind
  | skipped
  | last
  | problem
  | literals
  deriving DecidableEq, Repr

/-- The kind of a line without blanks at its ends. -/
def lineKind : List Char → LineKind
  | [] => .skipped
  | c :: _ =>
    if c = 'c' then .skipped
    else if c = '%' then .last
    else if c = 'p' then .problem
    else .literals

/-- The two counts of a problem line; what follows them does not matter. -/
def readProblem? (line : List Char) : Option (Nat × Nat) :=
  match Text.words line with
  | p :: format :: numVariables :: numClauses :: _ =>
    if p = ['p'] ∧ format = ['c', 'n', 'f'] then do
      let n ← Text.readNatural? Text.countBound numVariables
      let m ← Text.readNatural? Text.countBound numClauses
      return (n, m)
    else none
  | _ => none

def Progress.add (p : Progress) (l : Literal) : Progress :=
  if l = 0 then { p with clauses := p.clause.reverse :: p.clauses, clause := [] }
  else { p with clause := l :: p.clause, largest := max p.largest (Literal.var l) }

def readWords (line : Nat) : List (List Char) → Progress → Except Error Progress
  | [], p => .ok p
  | w :: ws, p =>
    match Text.readInteger? Text.literalBound w with
    | none => .error (.badLiteral line (String.ofList w))
    | some l => readWords line ws (p.add l)

/-- Reads the lines from number `line` on, counted from one. -/
def readLines : (line : Nat) → List (List UInt8) → Progress → Except Error Progress
  | _, [], p => .ok p
  | line, bytes :: rest, p =>
    match Text.ofBytes? bytes with
    | none => .error (.unreadable (line - 1))
    | some text =>
      let content := Text.trim text.toList
      match lineKind content with
      | .skipped => readLines (line + 1) rest p
      | .last => .ok p
      | .problem =>
        match readProblem? content with
        | none => .error (.badProblem line (String.ofList content))
        | some counts => readLines (line + 1) rest { p with header := some counts }
      | .literals =>
        match readWords line (Text.words content) p with
        | .error e => .error e
        | .ok p => readLines (line + 1) rest p

/-- The clauses in order, the last one also if no zero ended it. -/
def Progress.allClauses (p : Progress) : List Clause :=
  (if p.clause = [] then p.clauses else p.clause.reverse :: p.clauses).reverse

def Progress.numVariables (p : Progress) : Nat :=
  match p.header with
  | some (declared, _) => declared
  | none => p.largest

def Progress.miscount (p : Progress) : Option Miscount :=
  match p.header with
  | some (_, declared) =>
    let found := p.allClauses.length
    if declared ≠ found then some ⟨declared, found⟩ else none
  | none => none

/-- The formula, and whether its declared number of clauses is wrong. -/
def readWithMiscount (bytes : List UInt8) : Except Error (Formula × Option Miscount) := do
  let p ← readLines 1 (Text.lines bytes) {}
  match Formula.ofClauses p.numVariables p.allClauses with
  | .ok f => return (f, p.miscount)
  | .error e => throw (.invalid e)

def read (bytes : List UInt8) : Except Error Formula := do
  return (← readWithMiscount bytes).1

end SatWalk.Dimacs
