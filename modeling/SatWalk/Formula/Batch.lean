import SatWalk.Dimacs.Writer
import SatWalk.Files.Host
import SatWalk.Formula.Generation
import SatWalk.Text.Blank

/-! Batches of generated formulas. The size of each formula is drawn from the given ranges, and
its name tells its number and size. The formulas are generated in order, up to the first that
fails; then all that were generated are written to files, with their models beside them if
they were planted, and only after that the failure is told. -/

namespace SatWalk.Batch

structure Options where
  numInstances : Nat := 100
  numVariables : Nat × Nat := (50, 200)
  numClauses : Nat × Nat := (200, 800)
  clauseLength : Nat := 3
  planted : Bool := false
  seed : String := ""
  deriving DecidableEq, Repr

inductive Error
  | variableRange (least greatest : Nat)
  | clauseRange (least greatest : Nat)
  | generation (cause : Generation.Error)
  | files (cause : Files.Error)
  deriving DecidableEq, Repr

def Error.message : Error → String
  | .variableRange least greatest =>
    "Invalid variable range " ++ toString least ++ "..=" ++ toString greatest
  | .clauseRange least greatest =>
    "Invalid clause range " ++ toString least ++ "..=" ++ toString greatest
  | .generation cause => cause.message
  | .files cause => cause.message

def Options.check (o : Options) : Except Error Unit :=
  let (minVars, maxVars) := o.numVariables
  let (minClauses, maxClauses) := o.numClauses
  if minVars = 0 ∨ maxVars < minVars then .error (.variableRange minVars maxVars)
  else if maxClauses < minClauses then .error (.clauseRange minClauses maxClauses)
  else .ok ()

/-- One formula of a batch. -/
structure Item where
  name : String
  formula : Formula
  model : Option Assignment
  deriving DecidableEq, Repr

def itemName (planted : Bool) (index : Nat) (d : Difficulty) : String :=
  (if planted then "sat" else "random") ++ "_" ++ String.ofList (Text.padNatural 4 index) ++
    "_k" ++ toString d.clauseLength ++ "_v" ++ toString d.numVariables ++
    "_c" ++ toString d.numClauses

/-- The files of an item: its formula and, if it has one, its model. -/
def Item.files (i : Item) : List (String × List UInt8) :=
  (i.name ++ ".cnf", Text.toBytes (Dimacs.write i.formula)) ::
    match i.model with
    | some model => [(i.name ++ ".model.json", Text.toBytes (Assignment.codec.write model))]
    | none => []

/-- The size of the next formula. -/
def drawDifficulty {σ : Type} [Source σ] (o : Options) : Draw σ Difficulty := fun s => do
  let (numVariables, s) ← Draw.between o.numVariables.1 o.numVariables.2 s
  let (numClauses, s) ← Draw.between o.numClauses.1 o.numClauses.2 s
  return (⟨numVariables, numClauses, o.clauseLength⟩, s)

def itemSeed (o : Options) (index : Nat) : String :=
  o.seed ++ "|" ++ toString index

/-- The item with the given number and size. -/
def makeItem (o : Options) (index : Nat) (d : Difficulty) : Attempt Error Item := do
  let (formula, model) ← (Generation.ofText (itemSeed o index) d o.planted).adapt .generation
  return ⟨itemName o.planted index d, formula, model⟩

/-- The next item, and the source that goes on after its size. -/
def nextItem (o : Options) (index : Nat) (s : ChaCha) : Attempt Error (Item × ChaCha) := do
  let (d, s) ← (drawDifficulty o s : Checked _)
  let i ← makeItem o index d
  return (i, s)

/-- `count` items from number `index` on: those before the first that fails, in reverse, and
how it failed. -/
def itemsFrom (o : Options) :
    (count index : Nat) → (done : List Item) → ChaCha → List Item × Attempt Error Unit
  | 0, _, done, _ => (done, pure ())
  | count + 1, index, done, s =>
    match nextItem o index s with
    | .ok (.ok (i, s)) => itemsFrom o count (index + 1) (i :: done) s
    | .ok (.error e) => (done, throw e)
    | .error fault => (done, .error fault)

/-- The items of a batch in order, up to the first that fails, and how it failed. -/
def items (o : Options) : List Item × Attempt Error Unit :=
  match reserve o.numInstances 24 with
  | .error fault => ([], .error fault)
  | .ok () =>
    let (done, ending) := itemsFrom o o.numInstances 0 [] (.ofSeed (.ofText o.seed))
    (done.reverse, ending)

variable {m : Type → Type} [Monad m]

def writeFiles (h : Host m) (directory : String) :
    List (String × List UInt8) → ExceptT Error m Unit
  | [] => return ()
  | (name, content) :: rest => do
    match ← h.writeFile (Files.joinPath directory name) content with
    | .error e => throw (.files e)
    | .ok () => writeFiles h directory rest

/-- Writes a batch to a directory. The paths are those of the formulas, in order. -/
def write (h : Host m) (o : Options) (directory : String) :
    ExceptT Error m (Checked (List String)) := do
  match o.check with
  | .error e => throw e
  | .ok () =>
    match ← h.makeDirs directory with
    | .error e => throw (.files e)
    | .ok () =>
      let (done, ending) := items o
      writeFiles h directory (done.flatMap Item.files)
      match ending.run with
      | .error fault => return .error fault
      | .ok (.error e) => throw e
      | .ok (.ok ()) =>
        return .ok (done.map fun i => Files.joinPath directory (i.name ++ ".cnf"))

end SatWalk.Batch
