import SatWalk.Formula.Assignment

/-! Tracking of the clauses that an assignment leaves unsatisfied. A tracker is built for an
assignment, rebuilt when all values may have changed, and told of single flips. The order
of its list means nothing. Scanning looks at every clause again each time; counting
keeps the number of true literals of each clause and visits only the clauses in which
the flipped variable occurs. -/

namespace SatWalk

structure Tracker (ω : Type) where
  build : Formula → Assignment → Checked ω
  rebuild : Formula → Assignment → ω → Checked ω
  /-- For an assignment in which the given variable has been flipped. -/
  recordFlip : Formula → Assignment → Nat → ω → Checked ω
  isSatisfied : ω → Bool
  unsatisfied : ω → Array Nat

namespace Tracker

/-! ### Scanning -/

/-- The numbers of the unsatisfied clauses among those from number `clause` on. -/
def scanFrom (a : Assignment) : (clause : Nat) → (found : Array Nat) → List Clause →
    Checked (Array Nat)
  | _, found, [] => .ok found
  | clause, found, c :: cs => do
    if ← a.satisfiesClause c then scanFrom a (clause + 1) found cs
    else scanFrom a (clause + 1) (found.push clause) cs

def scanAll (f : Formula) (a : Assignment) : Checked (Array Nat) :=
  scanFrom a 0 #[] f.clauses.toList

def scan : Tracker (Array Nat) where
  build := scanAll
  rebuild f a _ := scanAll f a
  recordFlip f a _ _ := scanAll f a
  isSatisfied unsatisfied := unsatisfied.isEmpty
  unsatisfied := id

/-! ### Counting -/

structure Counts where
  /-- The clauses in which each variable occurs as it is, once per occurrence. -/
  positive : Array (Array Nat)
  /-- The clauses in which each variable occurs negated, once per occurrence. -/
  negative : Array (Array Nat)
  /-- How many literals of each clause are true, in 32 bits. -/
  numTrue : Array Nat
  unsatisfied : Array Nat
  /-- Where each clause stands in the list of unsatisfied ones. -/
  position : Array (Option Nat)
  deriving DecidableEq, Repr, Inhabited

namespace Counts

def insert (k : Counts) (clause : Nat) : Checked Counts := do
  let { positive, negative, numTrue, unsatisfied, position } := k
  let position ← store position clause (some unsatisfied.size)
  return { positive, negative, numTrue, unsatisfied := unsatisfied.push clause, position }

/-- Takes an entry out of a list; the last one moves into its place. -/
def swapOut (xs : Array Nat) (i : Nat) : Checked (Array Nat) :=
  if h : i < xs.size then
    match xs.back? with
    | some last => .ok ((xs.set i last h).pop)
    | none => .error .indexOutOfRange
  else .error .indexOutOfRange

def remove (k : Counts) (clause : Nat) : Checked Counts := do
  let { positive, negative, numTrue, unsatisfied, position } := k
  match ← fetch position clause with
  | none => throw .indexOutOfRange
  | some i =>
    let unsatisfied ← swapOut unsatisfied i
    let position ← match unsatisfied[i]? with
      | some moved => store position moved (some i)
      | none => .ok position
    let position ← store position clause none
    return { positive, negative, numTrue, unsatisfied, position }

/-- Enters the occurrences of the literals of one clause. -/
def enterClause (clause : Nat) : List Literal → Array (Array Nat) × Array (Array Nat) →
    Checked (Array (Array Nat) × Array (Array Nat))
  | [], occurrences => .ok occurrences
  | l :: ls, (positive, negative) => do
    let slot ← slotOf (Literal.var l)
    if 0 < l then enterClause clause ls (← adjust positive slot (·.push clause), negative)
    else enterClause clause ls (positive, ← adjust negative slot (·.push clause))

def enterClauses : (clause : Nat) → List Clause → Array (Array Nat) × Array (Array Nat) →
    Checked (Array (Array Nat) × Array (Array Nat))
  | _, [], occurrences => .ok occurrences
  | clause, c :: cs, occurrences => do
    enterClauses (clause + 1) cs (← enterClause clause c occurrences)

/-- How many of the literals are true, added to `done`. -/
def countTrue (a : Assignment) : (done : Nat) → List Literal → Checked Nat
  | done, [] => .ok done
  | done, l :: ls => do
    let b ← a.makesTrue l
    countTrue a (if b then done + 1 else done) ls

/-- Counts the clauses from number `clause` on. -/
def recount (a : Assignment) : (clause : Nat) → List Clause → Counts → Checked Counts
  | _, [], k => .ok k
  | clause, c :: cs, k => do
    let count := (← countTrue a 0 c) % size32
    let { positive, negative, numTrue, unsatisfied, position } := k
    let numTrue ← store numTrue clause count
    let position ← store position clause none
    let k : Counts := { positive, negative, numTrue, unsatisfied, position }
    if count = 0 then recount a (clause + 1) cs (← k.insert clause)
    else recount a (clause + 1) cs k

def rebuild (f : Formula) (a : Assignment) (k : Counts) : Checked Counts :=
  recount a 0 f.clauses.toList { k with unsatisfied := #[] }

def build (f : Formula) (a : Assignment) : Checked Counts := do
  reserve f.numVariables 24
  let empty : Array (Array Nat) := .replicate f.numVariables #[]
  let (positive, negative) ← enterClauses 0 f.clauses.toList (empty, empty)
  rebuild f a
    { positive, negative
      numTrue := .replicate f.numClauses 0
      unsatisfied := #[]
      position := .replicate f.numClauses none }

/-- One more literal of each listed clause is true. -/
def gain : List Nat → Counts → Checked Counts
  | [], k => .ok k
  | clause :: rest, k => do
    let { positive, negative, numTrue, unsatisfied, position } := k
    let count ← fetch numTrue clause
    let numTrue ← store numTrue clause (← increment size32 count)
    let k : Counts := { positive, negative, numTrue, unsatisfied, position }
    if count = 0 then gain rest (← k.remove clause) else gain rest k

/-- One literal less of each listed clause is true. -/
def lose : List Nat → Counts → Checked Counts
  | [], k => .ok k
  | clause :: rest, k => do
    let { positive, negative, numTrue, unsatisfied, position } := k
    match ← fetch numTrue clause with
    | 0 => throw .arithmeticOverflow
    | count + 1 =>
      let numTrue ← store numTrue clause count
      let k : Counts := { positive, negative, numTrue, unsatisfied, position }
      if count = 0 then lose rest (← k.insert clause) else lose rest k

/-- Gains come first, so a clause that holds a variable and its negative keeps a true literal. -/
def recordFlip (a : Assignment) (var : Nat) (k : Counts) : Checked Counts := do
  let slot ← slotOf var
  let value ← a.value var
  let positive ← fetch k.positive slot
  let negative ← fetch k.negative slot
  let (nowTrue, nowFalse) := if value then (positive, negative) else (negative, positive)
  lose nowFalse.toList (← gain nowTrue.toList k)

end Counts

def incremental : Tracker Counts where
  build := Counts.build
  rebuild := Counts.rebuild
  recordFlip _ a v k := k.recordFlip a v
  isSatisfied k := k.unsatisfied.isEmpty
  unsatisfied k := k.unsatisfied

end Tracker

end SatWalk
